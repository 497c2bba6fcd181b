namespace DlogProof

/-- A pool of workers and a batch of jobs: the jobs that wait, the job that each worker holds,
and the messages of the finished jobs in the order they were sent. -/
structure Pool (J R : Type) where
  waiting : List J
  held : List (Option J)
  sent : List R

/-- What can happen next in a pool. -/
inductive PoolEvent where
  /-- An idle worker takes the waiting job at a position. -/
  | take (worker position : Nat)
  /-- A worker finishes its job and sends the message. -/
  | finish (worker : Nat)
deriving DecidableEq

namespace Pool

variable {J R : Type}

/-- All jobs wait, and all workers are idle. -/
def start (workers : Nat) (jobs : List J) : Pool J R := ⟨jobs, List.replicate workers none, []⟩

/-- The pool after an event, if the event can happen. -/
def advance? (run : J → R) (pool : Pool J R) : PoolEvent → Option (Pool J R)
  | .take worker position =>
    match pool.held[worker]?, pool.waiting[position]? with
    | some none, some job =>
      some ⟨pool.waiting.eraseIdx position, pool.held.set worker (some job), pool.sent⟩
    | _, _ => none
  | .finish worker =>
    match pool.held[worker]? with
    | some (some job) => some ⟨pool.waiting, pool.held.set worker none, pool.sent ++ [run job]⟩
    | _ => none

/-- The pool after a sequence of events, if all of them can happen. -/
def play? (run : J → R) : Pool J R → List PoolEvent → Option (Pool J R)
  | pool, [] => some pool
  | pool, event :: events =>
    match pool.advance? run event with
    | some next => next.play? run events
    | none => none

/-- Whether every job has been finished. -/
def isDone (pool : Pool J R) : Bool := pool.waiting.isEmpty && pool.held.all Option.isNone

end Pool

/-- The events in which each of `k` workers takes the first waiting job, and then each finishes. -/
def roundEvents (k : Nat) : List PoolEvent :=
  (List.range k).map (PoolEvent.take · 0) ++ (List.range k).map PoolEvent.finish

/-- Rounds in which all workers are given a job, until `jobs` jobs are done. -/
def roundRobin (workers : Nat) : Nat → Nat → List PoolEvent
  | 0, _ => []
  | fuel + 1, jobs =>
    if jobs = 0 then []
    else roundEvents (min workers jobs) ++ roundRobin workers fuel (jobs - workers)

/-- Runs a batch of jobs, and collects the messages. -/
def runBatch {J R : Type} (workers : Nat) (run : J → R) (jobs : List J) : List R :=
  match (Pool.start workers jobs).play? run (roundRobin workers jobs.length jobs.length) with
  | some pool => pool.sent
  | none => []

end DlogProof
