import DlogProof.Keygen.Pool
import Mathlib.Data.List.Perm.Basic
import Mathlib.Data.List.ReduceOption

namespace DlogProof

namespace Pool

open List

variable {J R : Type} {run : J → R} {pool next : Pool J R}

theorem advance?_take {worker position : Nat} {job : J} (hheld : pool.held[worker]? = some none)
    (hwait : pool.waiting[position]? = some job) :
    pool.advance? run (.take worker position) =
      some ⟨pool.waiting.eraseIdx position, pool.held.set worker (some job), pool.sent⟩ := by
  simp only [advance?, hheld, hwait]

theorem advance?_finish {worker : Nat} {job : J} (hheld : pool.held[worker]? = some (some job)) :
    pool.advance? run (.finish worker) =
      some ⟨pool.waiting, pool.held.set worker none, pool.sent ++ [run job]⟩ := by
  simp only [advance?, hheld]

/-- Everything that one event can do to a pool. -/
theorem advance?_cases {event : PoolEvent} (h : pool.advance? run event = some next) :
    (∃ worker position job, event = .take worker position ∧
      pool.held[worker]? = some none ∧ pool.waiting[position]? = some job ∧
      next = ⟨pool.waiting.eraseIdx position, pool.held.set worker (some job), pool.sent⟩) ∨
    (∃ worker job, event = .finish worker ∧ pool.held[worker]? = some (some job) ∧
      next = ⟨pool.waiting, pool.held.set worker none, pool.sent ++ [run job]⟩) := by
  cases event with
  | take worker position =>
    simp only [advance?] at h
    split at h
    · rename_i job hheld hwait
      cases h
      exact Or.inl ⟨worker, position, job, rfl, hheld, hwait, rfl⟩
    · cases h
  | finish worker =>
    simp only [advance?] at h
    split at h
    · rename_i job hheld
      cases h
      exact Or.inr ⟨worker, job, rfl, hheld, rfl⟩
    · cases h

/-- The jobs that have not been finished. -/
def pending (pool : Pool J R) : List J := pool.waiting ++ pool.held.reduceOption

/-- The messages of all jobs: those sent, and those that the pending jobs will send. -/
def messages (run : J → R) (pool : Pool J R) : List R := pool.sent ++ pool.pending.map run

theorem cons_eraseIdx_perm {α : Type} {l : List α} {i : Nat} {a : α} (h : l[i]? = some a) :
    a :: l.eraseIdx i ~ l := by
  obtain ⟨hi, rfl⟩ := List.getElem?_eq_some_iff.mp h
  exact getElem_cons_eraseIdx_perm hi

/-- What a worker holds can be exchanged without a change to what the others hold. -/
theorem reduceOption_set_perm {α : Type} {l : List (Option α)} {i : Nat} {old : Option α}
    (h : l[i]? = some old) (new : Option α) :
    old.toList ++ (l.set i new).reduceOption ~ new.toList ++ l.reduceOption := by
  obtain ⟨hi, rfl⟩ := List.getElem?_eq_some_iff.mp h
  have hcons : ∀ x : Option α, ∀ m : List (Option α), (x :: m).reduceOption =
      x.toList ++ m.reduceOption := by
    intro x m
    cases x <;> rfl
  have hset : (l.set i new).reduceOption ~ new.toList ++ (l.eraseIdx i).reduceOption :=
    hcons new _ ▸ (set_perm_cons_eraseIdx hi new).filterMap id
  have hold : l[i].toList ++ (l.eraseIdx i).reduceOption ~ l.reduceOption :=
    hcons l[i] _ ▸ (getElem_cons_eraseIdx_perm hi).filterMap id
  calc l[i].toList ++ (l.set i new).reduceOption
      ~ l[i].toList ++ (new.toList ++ (l.eraseIdx i).reduceOption) := hset.append_left _
    _ ~ new.toList ++ (l[i].toList ++ (l.eraseIdx i).reduceOption) := perm_append_comm_assoc _ _ _
    _ ~ new.toList ++ l.reduceOption := hold.append_left _

/-- No event loses, repeats or changes a message. -/
theorem messages_advance?_perm {event : PoolEvent} (h : pool.advance? run event = some next) :
    next.messages run ~ pool.messages run := by
  rcases advance?_cases h with ⟨worker, position, job, -, hheld, hwait, rfl⟩ |
    ⟨worker, job, -, hheld, rfl⟩
  · have hh : (pool.held.set worker (some job)).reduceOption ~ job :: pool.held.reduceOption :=
      reduceOption_set_perm hheld (some job)
    have hp : pool.waiting.eraseIdx position ++ (pool.held.set worker (some job)).reduceOption ~
        pool.pending := by
      calc pool.waiting.eraseIdx position ++ (pool.held.set worker (some job)).reduceOption
          ~ pool.waiting.eraseIdx position ++ job :: pool.held.reduceOption := hh.append_left _
        _ ~ job :: (pool.waiting.eraseIdx position ++ pool.held.reduceOption) := perm_middle
        _ ~ pool.pending := (cons_eraseIdx_perm hwait).append_right _
    exact (hp.map run).append_left _
  · have hh : job :: (pool.held.set worker none).reduceOption ~ pool.held.reduceOption :=
      reduceOption_set_perm hheld none
    have hp : job :: (pool.waiting ++ (pool.held.set worker none).reduceOption) ~ pool.pending :=
      perm_middle.symm.trans (hh.append_left _)
    simp only [messages, pending, List.append_assoc, List.singleton_append]
    exact (hp.map run).append_left _

theorem messages_play?_perm {events : List PoolEvent} (h : pool.play? run events = some next) :
    next.messages run ~ pool.messages run := by
  induction events generalizing pool with
  | nil =>
    cases h
    exact Perm.refl _
  | cons event events ih =>
    simp only [play?] at h
    split at h
    · rename_i middle hm
      exact (ih h).trans (messages_advance?_perm hm)
    · cases h

theorem messages_start (workers : Nat) (jobs : List J) :
    (start workers jobs).messages run = jobs.map run := by
  simp [start, messages, pending]

theorem pending_of_isDone (h : pool.isDone = true) : pool.pending = [] := by
  simp only [isDone, Bool.and_eq_true, List.isEmpty_iff, List.all_eq_true] at h
  have hh : pool.held.reduceOption = [] := by
    apply List.eq_nil_iff_forall_not_mem.mpr
    intro job hj
    have := h.2 _ (List.reduceOption_mem_iff.mp hj)
    cases this
  rw [pending, h.1, hh]
  rfl

/-- However the workers take turns, each job has sent its message exactly once when all are done. -/
theorem sent_perm_of_isDone {workers : Nat} {jobs : List J} {events : List PoolEvent}
    (h : (start workers jobs).play? run events = some pool) (hd : pool.isDone = true) :
    pool.sent ~ jobs.map run := by
  have hp := messages_play?_perm h
  rwa [messages_start, messages, pending_of_isDone hd, List.map_nil, List.append_nil] at hp

/-- The events still needed: two for a waiting job, one for a held one. -/
def work (pool : Pool J R) : Nat := 2 * pool.waiting.length + pool.held.reduceOption.length

theorem work_advance? {event : PoolEvent} (h : pool.advance? run event = some next) :
    next.work + 1 = pool.work ∧ next.held.length = pool.held.length := by
  rcases advance?_cases h with ⟨worker, position, job, -, hheld, hwait, rfl⟩ |
    ⟨worker, job, -, hheld, rfl⟩
  · have hh : (pool.held.set worker (some job)).reduceOption.length =
        pool.held.reduceOption.length + 1 := (reduceOption_set_perm hheld (some job)).length_eq
    have hw := (cons_eraseIdx_perm hwait).length_eq
    rw [List.length_cons] at hw
    simp only [work, hh, List.length_set, and_true]
    omega
  · have hh : (pool.held.set worker none).reduceOption.length + 1 =
        pool.held.reduceOption.length := (reduceOption_set_perm hheld none).length_eq
    simp only [work, ← hh, List.length_set, and_true]
    omega

theorem work_start (workers : Nat) (jobs : List J) :
    (start workers jobs : Pool J R).work = 2 * jobs.length := by
  simp [start, work]

theorem work_of_isDone (h : pool.isDone = true) : pool.work = 0 := by
  have hp := pending_of_isDone h
  rw [pending, List.append_eq_nil_iff] at hp
  rw [work, hp.1, hp.2]
  rfl

/-- As long as jobs are left, a worker can take or finish one. -/
theorem exists_advance? (run : J → R) (hw : 0 < pool.held.length) (hd : pool.isDone = false) :
    ∃ event next, pool.advance? run event = some next := by
  -- An idle worker takes a waiting job; if none waits, or nobody is idle, a job can be finished.
  by_cases hidle : ∃ worker : Nat, pool.held[worker]? = some none
  · obtain ⟨worker, hworker⟩ := hidle
    cases hwait : pool.waiting with
    | cons job waiting =>
      have h0 : pool.waiting[0]? = some job := by rw [hwait]; rfl
      exact ⟨.take worker 0, _, advance?_take hworker h0⟩
    | nil =>
      simp only [isDone, hwait, List.isEmpty_nil, Bool.true_and, List.all_eq_false] at hd
      obtain ⟨slot, hmem, hsome⟩ := hd
      cases slot with
      | none => exact absurd rfl hsome
      | some job =>
        obtain ⟨busy, hbusy⟩ := List.getElem?_of_mem hmem
        exact ⟨.finish busy, _, advance?_finish hbusy⟩
  · have h0 : pool.held[0]? = some pool.held[0] := List.getElem?_eq_getElem hw
    cases hjob : pool.held[0] with
    | none => exact absurd ⟨0, hjob ▸ h0⟩ hidle
    | some job =>
      rw [hjob] at h0
      exact ⟨.finish 0, _, advance?_finish h0⟩

/-- No schedule runs into a dead end. -/
theorem exists_play?_isDone (run : J → R) (pool : Pool J R) (hw : 0 < pool.held.length) :
    ∃ events last, pool.play? run events = some last ∧ last.isDone = true := by
  induction hn : pool.work generalizing pool with
  | zero =>
    refine ⟨[], pool, rfl, ?_⟩
    by_contra hd
    obtain ⟨event, next, h⟩ := exists_advance? run hw (Bool.eq_false_iff.mpr hd)
    have := (work_advance? h).1
    omega
  | succ n ih =>
    by_cases hd : pool.isDone = true
    · exact ⟨[], pool, rfl, hd⟩
    · obtain ⟨event, next, h⟩ := exists_advance? run hw (Bool.eq_false_iff.mpr hd)
      obtain ⟨hwork, hlen⟩ := work_advance? h
      obtain ⟨events, last, hplay, hlast⟩ := ih next (hlen ▸ hw) (by omega)
      exact ⟨event :: events, last, by simp only [play?, h, hplay], hlast⟩

theorem work_play? {events : List PoolEvent} (h : pool.play? run events = some next) :
    next.work + events.length = pool.work ∧ next.held.length = pool.held.length := by
  induction events generalizing pool with
  | nil =>
    cases h
    exact ⟨rfl, rfl⟩
  | cons event events ih =>
    simp only [play?] at h
    split at h
    · rename_i middle hm
      obtain ⟨hwork, hlen⟩ := ih h
      obtain ⟨hwork', hlen'⟩ := work_advance? hm
      rw [List.length_cons]
      exact ⟨by omega, hlen.trans hlen'⟩
    · cases h

theorem play?_append {events : List PoolEvent} (h : pool.play? run events = some next)
    (more : List PoolEvent) : pool.play? run (events ++ more) = next.play? run more := by
  induction events generalizing pool with
  | nil =>
    cases h
    rfl
  | cons event events ih =>
    rw [List.cons_append, play?]
    rw [play?] at h
    split at h
    · exact ih h
    · cases h

theorem play?_concat {events : List PoolEvent} {event : PoolEvent} {last : Pool J R}
    (h : pool.play? run events = some next) (he : next.advance? run event = some last) :
    pool.play? run (events ++ [event]) = some last := by
  rw [play?_append h, play?, he]
  rfl

/-- Whatever some workers have done so far, they can do all jobs, and it takes them two events for
each job. -/
theorem exists_completion {workers : Nat} {jobs : List J} {events : List PoolEvent}
    (hw : 0 < workers) (h : (start workers jobs).play? run events = some pool) :
    ∃ more last, (start workers jobs).play? run (events ++ more) = some last ∧
      last.isDone = true ∧ (events ++ more).length = 2 * jobs.length := by
  have hlen : pool.held.length = workers := by
    rw [(work_play? h).2, start, length_replicate]
  obtain ⟨more, last, hmore, hlast⟩ := exists_play?_isDone run pool (hlen ▸ hw)
  have hplay : (start workers jobs).play? run (events ++ more) = some last := by
    rw [play?_append h, hmore]
  refine ⟨more, last, hplay, hlast, ?_⟩
  have hwork := (work_play? hplay).1
  have hrest : last.work = 0 := work_of_isDone hlast
  simpa [hrest, work_start] using hwork

/-- Workers that take the first waiting job each, in order. -/
theorem play?_takes (jobs : List J) (sent : List R) {workers k : Nat} (hk : k ≤ workers)
    (hj : k ≤ jobs.length) :
    play? run ⟨jobs, replicate workers none, sent⟩ ((range k).map (PoolEvent.take · 0)) =
      some ⟨jobs.drop k, (jobs.take k).map some ++ replicate (workers - k) none, sent⟩ := by
  induction k with
  | zero => simp [play?]
  | succ k ih =>
    -- The next to take a job is the first idle worker, as those before it hold one.
    have hl : ((jobs.take k).map some : List (Option J)).length = k := by
      rw [length_map, length_take]
      omega
    have hidle : replicate (workers - k) (none : Option J) =
        none :: replicate (workers - (k + 1)) none := by
      rw [← replicate_succ]
      congr 1
      omega
    have hprefix := hidle ▸ ih (by omega) (by omega)
    have hheld : ((jobs.take k).map some ++ none :: replicate (workers - (k + 1)) none)[k]? =
        some (none : Option J) := by
      rw [getElem?_append_right (by omega), hl, Nat.sub_self]
      rfl
    have hwait : (jobs.drop k)[0]? = some jobs[k] := by
      rw [getElem?_drop, Nat.add_zero, getElem?_eq_getElem]
    have hset : ((jobs.take k).map some ++ none :: replicate (workers - (k + 1)) none).set k
        (some jobs[k]) =
          (jobs.take (k + 1)).map some ++ replicate (workers - (k + 1)) none := by
      rw [set_append_right _ _ (by omega), hl, Nat.sub_self, take_succ_eq_append_getElem (by omega),
        map_append, append_assoc]
      rfl
    have hstep : advance? run ⟨jobs.drop k, (jobs.take k).map some ++
        none :: replicate (workers - (k + 1)) none, sent⟩ (.take k 0) =
          some ⟨jobs.drop (k + 1), (jobs.take (k + 1)).map some ++
            replicate (workers - (k + 1)) none, sent⟩ := by
      rw [← hset, ← tail_drop, ← eraseIdx_zero]
      exact advance?_take hheld hwait
    rw [range_succ, map_append]
    exact play?_concat hprefix hstep

/-- Workers that finish their jobs in order. -/
theorem play?_finishes (waiting jobs : List J) (idle : List (Option J)) (sent : List R) {k : Nat}
    (hk : k ≤ jobs.length) :
    play? run ⟨waiting, jobs.map some ++ idle, sent⟩ ((range k).map PoolEvent.finish) =
      some ⟨waiting, replicate k none ++ ((jobs.drop k).map some ++ idle),
        sent ++ (jobs.take k).map run⟩ := by
  induction k with
  | zero => simp [play?]
  | succ k ih =>
    have hdrop : jobs.drop k = jobs[k] :: jobs.drop (k + 1) := drop_eq_getElem_cons (by omega)
    have hprefix := hdrop ▸ ih (by omega)
    have hheld : (replicate k none ++ (map some (jobs[k] :: jobs.drop (k + 1)) ++ idle))[k]? =
        some (some jobs[k]) := by
      rw [getElem?_append_right (by simp), length_replicate, Nat.sub_self]
      rfl
    have hset : (replicate k none ++ (map some (jobs[k] :: jobs.drop (k + 1)) ++ idle)).set k none =
        replicate (k + 1) none ++ ((jobs.drop (k + 1)).map some ++ idle) := by
      rw [set_append_right _ _ (by simp), length_replicate, Nat.sub_self, replicate_succ',
        append_assoc]
      rfl
    have hsent : sent ++ (jobs.take (k + 1)).map run =
        sent ++ (jobs.take k).map run ++ [run jobs[k]] := by
      rw [take_succ_eq_append_getElem (by omega), map_append, append_assoc]
      rfl
    have hstep : advance? run ⟨waiting, replicate k none ++
        (map some (jobs[k] :: jobs.drop (k + 1)) ++ idle), sent ++ (jobs.take k).map run⟩
          (.finish k) =
            some ⟨waiting, replicate (k + 1) none ++ ((jobs.drop (k + 1)).map some ++ idle),
              sent ++ (jobs.take (k + 1)).map run⟩ := by
      rw [← hset, hsent]
      exact advance?_finish hheld
    rw [range_succ, map_append]
    exact play?_concat hprefix hstep

theorem play?_roundEvents (jobs : List J) (sent : List R) {workers k : Nat} (hk : k ≤ workers)
    (hj : k ≤ jobs.length) :
    play? run ⟨jobs, replicate workers none, sent⟩ (roundEvents k) =
      some ⟨jobs.drop k, replicate workers none, sent ++ (jobs.take k).map run⟩ := by
  have hl : k ≤ (jobs.take k).length := by
    rw [length_take]
    omega
  rw [roundEvents, play?_append (play?_takes jobs sent hk hj), play?_finishes _ _ _ _ hl,
    drop_take, Nat.sub_self, take_zero, map_nil, nil_append, ← replicate_add,
    Nat.add_sub_cancel' hk, take_take, Nat.min_self]

theorem play?_roundRobin (jobs : List J) (sent : List R) {workers fuel : Nat} (hw : 0 < workers)
    (hf : jobs.length ≤ fuel) :
    play? run ⟨jobs, replicate workers none, sent⟩ (roundRobin workers fuel jobs.length) =
      some ⟨[], replicate workers none, sent ++ jobs.map run⟩ := by
  induction fuel generalizing jobs sent with
  | zero =>
    obtain rfl := length_eq_zero_iff.mp (Nat.le_zero.mp hf)
    simp [roundRobin, play?]
  | succ fuel ih =>
    by_cases h0 : jobs.length = 0
    · obtain rfl := length_eq_zero_iff.mp h0
      simp [roundRobin, play?]
    · have hrest : jobs.length - workers = (jobs.drop (min workers jobs.length)).length := by
        rw [length_drop]
        omega
      rw [roundRobin, if_neg h0, play?_append (play?_roundEvents jobs sent (Nat.min_le_left _ _)
        (Nat.min_le_right _ _)), hrest, ih _ _ (by rw [length_drop]; omega), append_assoc,
        ← map_append, take_append_drop]

end Pool

/-- The round robin does all jobs, and its messages come in the order of the jobs. -/
theorem runBatch_eq_map {J R : Type} {workers : Nat} (hw : 0 < workers) (run : J → R)
    (jobs : List J) : runBatch workers run jobs = jobs.map run := by
  rw [runBatch, Pool.start, Pool.play?_roundRobin jobs [] hw (Nat.le_refl _)]
  rfl

end DlogProof
