import DlogProof.Proofs.Blocks
import Mathlib.Data.List.Basic

namespace DlogProof

variable {σ : Type} [EntropySource σ] {limbs n bound count : ℕ} {s s' u v : σ}

/-- A source in the state `s` grants blocks of `n` bytes one after another, and is in the state `s'`
then. -/
inductive Grants (n : ℕ) : σ → List (List UInt8) → σ → Prop
  | nil (s : σ) : Grants n s [] s
  | cons {s u s' : σ} {block : List UInt8} {blocks : List (List UInt8)} :
      EntropySource.request n s = (.ok block, u) → Grants n u blocks s' →
        Grants n s (block :: blocks) s'

namespace Grants

variable {a b blocks : List (List UInt8)} {reason : String}

theorem append (h : Grants n s a u) (h' : Grants n u b v) : Grants n s (a ++ b) v := by
  induction h with
  | nil s => exact h'
  | cons hreq _ ih => exact .cons hreq (ih h')

/-- What a source grants is determined by its state, so of two sequences from the same state one
goes on where the other ends. -/
theorem comparable (h : Grants n s a u) (h' : Grants n s b v) :
    (∃ rest, b = a ++ rest ∧ Grants n u rest v) ∨ ∃ rest, a = b ++ rest ∧ Grants n v rest u := by
  induction h generalizing b with
  | nil s => exact Or.inl ⟨b, rfl, h'⟩
  | cons hreq htail ih =>
    cases h' with
    | nil => exact Or.inr ⟨_, rfl, .cons hreq htail⟩
    | cons hreq' htail' =>
      cases hreq.symm.trans hreq'
      rcases ih htail' with ⟨rest, rfl, hrest⟩ | ⟨rest, rfl, hrest⟩
      · exact Or.inl ⟨rest, rfl, hrest⟩
      · exact Or.inr ⟨rest, rfl, hrest⟩

theorem eq_nil_of_refused (h : Grants n s blocks v)
    (hreq : EntropySource.request n s = (.error reason, s')) : blocks = [] ∧ v = s := by
  cases h with
  | nil => exact ⟨rfl, rfl⟩
  | cons hreq' _ => cases hreq.symm.trans hreq'

end Grants

/-- The numbers in `[1, bound)` that blocks yield, in the order of the blocks. -/
def yieldedValues (bound : ℕ) (blocks : List (List UInt8)) : List ℕ :=
  (blocks.filter (Yields bound ·)).map (blockValue bound)

section Yielded

variable {block : List UInt8} {a b blocks : List (List UInt8)}

theorem yieldedValues_append :
    yieldedValues bound (a ++ b) = yieldedValues bound a ++ yieldedValues bound b := by
  rw [yieldedValues, List.filter_append, List.map_append]
  rfl

theorem yieldedValues_cons_of_yields (h : Yields bound block) :
    yieldedValues bound (block :: blocks) =
      blockValue bound block :: yieldedValues bound blocks := by
  rw [yieldedValues, List.filter_cons_of_pos (by simpa using h)]
  rfl

theorem yieldedValues_cons_of_not_yields (h : ¬ Yields bound block) :
    yieldedValues bound (block :: blocks) = yieldedValues bound blocks := by
  rw [yieldedValues, List.filter_cons_of_neg (by simpa using h)]
  rfl

theorem mem_yieldedValues {v : ℕ} (h : v ∈ yieldedValues bound blocks) : 0 < v ∧ v < bound := by
  obtain ⟨block, hblock, rfl⟩ := List.mem_map.mp h
  exact of_decide_eq_true (List.mem_filter.mp hblock).2

/-- Whether the last of the blocks, if there is one, yields a number. -/
def EndsInYield (bound : ℕ) (blocks : List (List UInt8)) : Prop :=
  ∀ block ∈ blocks.getLast?, Yields bound block

theorem EndsInYield.append (ha : EndsInYield bound a) (hb : EndsInYield bound b) :
    EndsInYield bound (a ++ b) := by
  intro block hblock
  rw [List.getLast?_append] at hblock
  cases hlast : b.getLast? with
  | none =>
    rw [hlast] at hblock
    exact ha block hblock
  | some last =>
    rw [hlast] at hblock
    exact hb block (hlast ▸ hblock)

theorem EndsInYield.cons (h : EndsInYield bound blocks) (hne : blocks ≠ []) :
    EndsInYield bound (block :: blocks) := by
  rw [EndsInYield, ← List.singleton_append, List.getLast?_append_of_ne_nil _ hne]
  exact h

/-- More blocks that end in a yield have yielded more numbers. -/
theorem EndsInYield.eq_nil (h : EndsInYield bound (a ++ b))
    (hle : (yieldedValues bound (a ++ b)).length ≤ (yieldedValues bound a).length) : b = [] := by
  by_contra hne
  rw [EndsInYield, List.getLast?_append_of_ne_nil _ hne] at h
  -- The last of the further blocks yields one number more.
  have hyield := h _ (List.getLast?_eq_some_getLast hne)
  have hmem : b.getLast hne ∈ b.filter (Yields bound ·) :=
    List.mem_filter.mpr ⟨List.getLast_mem hne, decide_eq_true hyield⟩
  have hpos : 0 < (yieldedValues bound b).length := by
    rw [yieldedValues, List.length_map]
    exact List.length_pos_of_mem hmem
  rw [yieldedValues_append, List.length_append] at hle
  omega

end Yielded

/-- How a search for `count` numbers in `[1, bound)` ends that takes block after block from a
source: with the numbers, as soon as there are enough of them, or with a refusal. -/
inductive NonceSearch (bound count : ℕ) (s : σ) : Except String (List ℕ) → σ → Prop
  | found {blocks : List (List UInt8)} {s' : σ} :
      Grants (blockLength (bitLength bound)) s blocks s' →
        (yieldedValues bound blocks).length = count → EndsInYield bound blocks →
          NonceSearch bound count s (.ok (yieldedValues bound blocks)) s'
  | refused {blocks : List (List UInt8)} {u s' : σ} {reason : String} :
      Grants (blockLength (bitLength bound)) s blocks u →
        (yieldedValues bound blocks).length < count →
          EntropySource.request (blockLength (bitLength bound)) u = (.error reason, s') →
            NonceSearch bound count s (.error reason) s'

/-- A search that has taken `fuel` blocks or more, and has found fewer than `count` numbers. -/
def StillSearching (bound count fuel : ℕ) (s s' : σ) : Prop :=
  ∃ blocks, Grants (blockLength (bitLength bound)) s blocks s' ∧
    (yieldedValues bound blocks).length < count ∧ fuel ≤ blocks.length

namespace NonceSearch

variable {fuel v : ℕ} {r r' : Except String (List ℕ)} {reason : String} {block : List UInt8}

/-- A search that found its numbers would not have been refused, and the other way round. -/
theorem not_refused_of_found {found : List ℕ} (h : NonceSearch bound count s (.ok found) u) :
    ¬ NonceSearch bound count s (.error reason) s' := by
  intro h'
  cases h with
  | found hgrant hcount _ =>
    cases h' with
    | refused hgrant' hcount' hreq =>
      rcases hgrant.comparable hgrant' with ⟨rest, rfl, -⟩ | ⟨rest, rfl, hrest⟩
      · rw [yieldedValues_append, List.length_append] at hcount'
        omega
      · rw [(hrest.eq_nil_of_refused hreq).1, List.append_nil] at hcount
        omega

theorem unique (h : NonceSearch bound count s r u) (h' : NonceSearch bound count s r' s') :
    r = r' ∧ u = s' := by
  cases h with
  | found hgrant hcount hlast =>
    cases h' with
    | found hgrant' hcount' hlast' =>
      rcases hgrant.comparable hgrant' with ⟨rest, rfl, hrest⟩ | ⟨rest, rfl, hrest⟩
      · obtain rfl := hlast'.eq_nil (hcount'.trans hcount.symm).le
        cases hrest
        rw [List.append_nil]
        exact ⟨rfl, rfl⟩
      · obtain rfl := hlast.eq_nil (hcount.trans hcount'.symm).le
        cases hrest
        rw [List.append_nil]
        exact ⟨rfl, rfl⟩
    | refused hgrant' hcount' hreq' =>
      exact absurd (refused hgrant' hcount' hreq')
        (not_refused_of_found (found hgrant hcount hlast))
  | refused hgrant hcount hreq =>
    cases h' with
    | found hgrant' hcount' hlast' =>
      exact absurd (refused hgrant hcount hreq)
        (not_refused_of_found (found hgrant' hcount' hlast'))
    | refused hgrant' hcount' hreq' =>
      rcases hgrant.comparable hgrant' with ⟨rest, rfl, hrest⟩ | ⟨rest, rfl, hrest⟩
      · obtain ⟨-, rfl⟩ := hrest.eq_nil_of_refused hreq
        cases hreq.symm.trans hreq'
        exact ⟨rfl, rfl⟩
      · obtain ⟨-, rfl⟩ := hrest.eq_nil_of_refused hreq'
        cases hreq.symm.trans hreq'
        exact ⟨rfl, rfl⟩

/-- A search that ends has ended after some number of blocks. -/
theorem exists_fuel (h : NonceSearch bound count s r u) :
    ∃ fuel, ∀ s', ¬ StillSearching bound count fuel s s' := by
  cases h with
  | @found blocks _ hgrant hcount _ =>
    refine ⟨blocks.length, ?_⟩
    rintro s' ⟨blocks', hgrant', hcount', hfuel⟩
    rcases hgrant.comparable hgrant' with ⟨rest, rfl, -⟩ | ⟨rest, rfl, -⟩
    · rw [yieldedValues_append, List.length_append] at hcount'
      omega
    · rw [List.length_append] at hfuel
      rw [List.length_eq_zero_iff.mp (by omega : rest.length = 0), List.append_nil] at hcount
      omega
  | @refused blocks _ _ _ hgrant _ hreq =>
    refine ⟨blocks.length + 1, ?_⟩
    rintro s' ⟨blocks', hgrant', -, hfuel⟩
    rcases hgrant.comparable hgrant' with ⟨rest, rfl, hrest⟩ | ⟨rest, rfl, -⟩
    · rw [(hrest.eq_nil_of_refused hreq).1, List.append_nil] at hfuel
      omega
    · rw [List.length_append] at hfuel
      omega

/-- A block that yields nothing changes nothing but the state of the source. -/
theorem of_rejected
    (hreq : EntropySource.request (blockLength (bitLength bound)) s = (.ok block, u))
    (hblock : ¬ Yields bound block) (hcount : 0 < count)
    (h : NonceSearch bound count u r s') : NonceSearch bound count s r s' := by
  cases h with
  | @found blocks _ hgrant hfound hlast =>
    have hne : blocks ≠ [] := by
      rintro rfl
      exact hcount.ne hfound
    rw [← yieldedValues_cons_of_not_yields hblock] at hfound ⊢
    exact found (.cons hreq hgrant) hfound (hlast.cons hne)
  | refused hgrant hfew hrefused =>
    refine refused (.cons hreq hgrant) ?_ hrefused
    rwa [yieldedValues_cons_of_not_yields hblock]

theorem of_yielded
    (hreq : EntropySource.request (blockLength (bitLength bound)) s = (.ok block, s'))
    (hblock : Yields bound block) :
    NonceSearch bound 1 s (.ok [blockValue bound block]) s' := by
  have hone : yieldedValues bound [block] = [blockValue bound block] :=
    yieldedValues_cons_of_yields hblock
  rw [← hone]
  refine found (.cons hreq (.nil s')) (by rw [hone]; rfl) ?_
  rintro last ⟨⟩
  exact hblock

/-- The search for one more number begins with the search for one. -/
theorem append (h : NonceSearch bound 1 s (.ok [v]) u) (h' : NonceSearch bound count u r s') :
    NonceSearch bound (count + 1) s (r.map (v :: ·)) s' := by
  generalize hone : [v] = one at h
  cases h with
  | @found a _ hgrant _ hlast =>
    cases h' with
    | @found b _ hgrant' hcount' hlast' =>
      have hall : yieldedValues bound (a ++ b) = v :: yieldedValues bound b := by
        rw [yieldedValues_append, ← hone]
        rfl
      rw [Except.map, ← hall]
      refine found (hgrant.append hgrant') ?_ (hlast.append hlast')
      rw [hall, List.length_cons, hcount']
    | refused hgrant' hcount' hreq =>
      refine refused (hgrant.append hgrant') ?_ hreq
      rw [yieldedValues_append, ← hone]
      simpa using hcount'

theorem refused_mono {count' : ℕ} (hle : count ≤ count')
    (h : NonceSearch bound count s (.error reason) s') :
    NonceSearch bound count' s (.error reason) s' := by
  cases h with
  | refused hgrant hfew hreq => exact refused hgrant (hfew.trans_le hle) hreq

end NonceSearch

namespace StillSearching

variable {fuel v : ℕ} {block : List UInt8}

theorem of_rejected
    (hreq : EntropySource.request (blockLength (bitLength bound)) s = (.ok block, u))
    (hblock : ¬ Yields bound block) (h : StillSearching bound count fuel u s') :
    StillSearching bound count (fuel + 1) s s' := by
  obtain ⟨blocks, hgrant, hfew, hfuel⟩ := h
  refine ⟨block :: blocks, .cons hreq hgrant, ?_, Nat.succ_le_succ hfuel⟩
  rwa [yieldedValues_cons_of_not_yields hblock]

theorem mono {count' : ℕ} (hle : count ≤ count') (h : StillSearching bound count fuel s s') :
    StillSearching bound count' fuel s s' := by
  obtain ⟨blocks, hgrant, hfew, hfuel⟩ := h
  exact ⟨blocks, hgrant, hfew.trans_le hle, hfuel⟩

theorem append (h : NonceSearch bound 1 s (.ok [v]) u) (h' : StillSearching bound count fuel u s') :
    StillSearching bound (count + 1) fuel s s' := by
  obtain ⟨blocks', hgrant', hfew, hfuel⟩ := h'
  generalize [v] = one at h
  cases h with
  | @found blocks _ hgrant hone _ =>
    refine ⟨blocks ++ blocks', hgrant.append hgrant', ?_, ?_⟩
    · rw [yieldedValues_append, List.length_append, hone]
      omega
    · rw [List.length_append]
      omega

end StillSearching

/-- What drawing `count` numbers from `[1, bound)` gives, where each takes up to `fuel` attempts. -/
inductive SearchResult (bound count fuel : ℕ) (s : σ) :
    Except (Stop SamplingError) (List (Uint limbs)) → σ → Prop
  | found {nonces : List (Uint limbs)} {s' : σ} :
      NonceSearch bound count s (.ok (nonces.map Uint.val)) s' →
        SearchResult bound count fuel s (.ok nonces) s'
  | refused {reason : String} {s' : σ} : NonceSearch bound count s (.error reason) s' →
      SearchResult bound count fuel s (.error (.failed (.source reason))) s'
  | unfinished {s' : σ} : StillSearching bound count fuel s s' →
      SearchResult bound count fuel s (.error .outOfFuel) s'

theorem SearchResult.of_rejected {fuel : ℕ} {block : List UInt8}
    {r : Except (Stop SamplingError) (List (Uint limbs))}
    (hreq : EntropySource.request (blockLength (bitLength bound)) s = (.ok block, u))
    (hblock : ¬ Yields bound block) (hcount : 0 < count)
    (h : SearchResult bound count fuel u r s') : SearchResult bound count (fuel + 1) s r s' := by
  cases h with
  | found hsearch => exact .found (hsearch.of_rejected hreq hblock hcount)
  | refused hsearch => exact .refused (hsearch.of_rejected hreq hblock hcount)
  | unfinished hstill => exact .unfinished (hstill.of_rejected hreq hblock)

section Drawn

variable {fuel : ℕ} {bound : Uint limbs}

/-- Repeated attempts are a search for one number. -/
theorem SearchResult.of_untilSome {r : Except (Stop SamplingError) (Uint limbs)}
    (h : (attemptBelow bound).untilSome fuel s = (r, s')) :
    SearchResult bound.val 1 fuel s (r.map ([·])) s' := by
  induction fuel generalizing s with
  | zero =>
    cases h
    exact .unfinished ⟨[], .nil _, Nat.zero_lt_one, le_rfl⟩
  | succ fuel ih =>
    rw [Draw.untilSome] at h
    rcases hreq : EntropySource.request (blockLength bound.bits) s with ⟨reason | block, u⟩
    · rw [Draw.bind_error (attemptBelow_of_refused hreq)] at h
      cases h
      exact .refused (.refused (.nil s) Nat.zero_lt_one hreq)
    · obtain ⟨sample, hsample, hattempt⟩ := attemptBelow_of_granted hreq
      have hlen := EntropySource.length_of_granted hreq
      -- The block yields the number, or the search goes on behind it.
      rw [Draw.bind_ok hattempt] at h
      cases sample with
      | some v =>
        cases h
        obtain ⟨hyields, hv⟩ := (sampleOfBlock_eq_some_iff hlen).mp hsample
        refine .found ?_
        rw [List.map_singleton, hv]
        exact .of_yielded hreq hyields
      | none =>
        have hblock := (sampleOfBlock_eq_none_iff hlen).mp hsample
        exact (ih h).of_rejected hreq hblock Nat.zero_lt_one

/-- Drawing numbers one after another is one search for all of them. -/
theorem SearchResult.of_drawNonces {r : Except (Stop SamplingError) (List (Uint limbs))}
    (hbound : 2 ≤ bound.bits) (h : drawNonces fuel bound count s = (r, s')) :
    SearchResult bound.val count fuel s r s' := by
  induction count generalizing s s' r with
  | zero =>
    cases h
    exact .found (.found (.nil _) rfl (by rintro block ⟨⟩))
  | succ count ih =>
    rw [drawNonces] at h
    rcases hfirst : drawPositiveBelow fuel bound s with ⟨first, u⟩
    have hone : SearchResult bound.val 1 fuel s (first.map ([·])) u := by
      rw [drawPositiveBelow, if_neg (by omega)] at hfirst
      exact .of_untilSome hfirst
    cases first with
    | error stop =>
      rw [Draw.bind_error hfirst] at h
      cases h
      cases hone with
      | refused hsearch => exact .refused (hsearch.refused_mono (by omega))
      | unfinished hstill => exact .unfinished (hstill.mono (by omega))
    | ok v =>
      rw [Draw.bind_ok hfirst] at h
      cases hone with
      | found hsearch =>
        rcases hrest : drawNonces fuel bound count u with ⟨rest, u'⟩
        have htail := ih hrest
        cases htail with
        | found hsearch' =>
          rw [Draw.bind_ok hrest] at h
          cases h
          exact .found (hsearch.append hsearch')
        | refused hsearch' =>
          rw [Draw.bind_error hrest] at h
          cases h
          exact .refused (hsearch.append hsearch')
        | unfinished hstill =>
          rw [Draw.bind_error hrest] at h
          cases h
          exact .unfinished (.append hsearch hstill)

end Drawn

end DlogProof
