import Mathlib.Logic.Function.Basic

/-! A direct-mapped write-back cache over a backing store: what the two hold together,
and what each elementary move does to it. -/
namespace WriteBack
variable {ι K V : Type*}

/-- One cache line. Without a tag it holds nothing. -/
structure Line (K V : Type*) where
  tag : Option K
  dirty : Bool
  value : V

section
variable [DecidableEq K] (slot : K → ι)

/-- What a client of the cache sees under a key: the line tagged with it, or the backing store. -/
def view (backing : K → V) (lines : ι → Line K V) (k : K) : V :=
  if (lines (slot k)).tag = some k then (lines (slot k)).value else backing k

/-- A tag sits in its own slot, a clean line agrees with the backing store, and a line
without a tag is clean. -/
structure Coherent (backing : K → V) (lines : ι → Line K V) : Prop where
  own : ∀ i k, (lines i).tag = some k → slot k = i
  clean : ∀ i k, (lines i).tag = some k → (lines i).dirty = false → (lines i).value = backing k
  idle : ∀ i, (lines i).tag = none → (lines i).dirty = false

variable {slot} {backing : K → V} {lines : ι → Line K V} {i : ι} {k : K} {v : V}

theorem view_hit (h : (lines (slot k)).tag = some k) :
    view slot backing lines k = (lines (slot k)).value := if_pos h

theorem view_miss (h : (lines (slot k)).tag ≠ some k) : view slot backing lines k = backing k :=
  if_neg h

/-- The line found under a key's slot is the only one tagged with it. -/
theorem Coherent.view_of_tag (hc : Coherent slot backing lines) (h : (lines i).tag = some k) :
    view slot backing lines k = (lines i).value := by
  have hi := hc.own i k h
  subst hi
  exact view_hit h

theorem Coherent.view_of_untagged (h : ∀ i, (lines i).tag ≠ some k) :
    view slot backing lines k = backing k := view_miss (h _)

/-- Under a clean slot the backing store is all there is to see. -/
theorem Coherent.view_of_slot_clean (hc : Coherent slot backing lines)
    (h : (lines (slot k)).dirty = false) : view slot backing lines k = backing k := by
  by_cases hk : (lines (slot k)).tag = some k
  · rw [view_hit hk, hc.clean _ k hk h]
  · exact view_miss hk

/-- With no dirty line the backing store is all there is to see. -/
theorem Coherent.view_of_clean (hc : Coherent slot backing lines)
    (h : ∀ i, (lines i).dirty = false) : view slot backing lines = backing :=
  funext fun _ => hc.view_of_slot_clean (h _)

/-- Clearing a set of keys in the backing store and in the lines tagged with them clears
exactly these keys. -/
theorem Coherent.erase (hc : Coherent slot backing lines) {z : V} {S : K → Prop} [DecidablePred S]
    {backing' : K → V} {lines' : ι → Line K V}
    (hb : ∀ k, backing' k = if S k then z else backing k)
    (hin : ∀ i k, (lines i).tag = some k → S k → lines' i = ⟨some k, false, z⟩)
    (hout : ∀ i, (∀ k, (lines i).tag = some k → ¬ S k) → lines' i = lines i) :
    Coherent slot backing' lines' ∧
      view slot backing' lines' = fun k => if S k then z else view slot backing lines k := by
  have htag : ∀ i, (lines' i).tag = (lines i).tag := by
    intro i
    by_cases h : ∃ k, (lines i).tag = some k ∧ S k
    · obtain ⟨k, hk, hS⟩ := h
      rw [hin i k hk hS, hk]
    · rw [hout i fun k hk hS => h ⟨k, hk, hS⟩]
  refine ⟨⟨?_, ?_, ?_⟩, ?_⟩
  · intro i k hk
    exact hc.own i k (by rw [← htag]; exact hk)
  · intro i k hk hd
    rw [htag] at hk
    by_cases hS : S k
    · rw [hin i k hk hS, hb, if_pos hS]
    · have he := hout i fun m hm => by rw [hk] at hm; cases hm; exact hS
      rw [he, hb, if_neg hS]
      exact hc.clean i k hk (by rw [← he]; exact hd)
  · intro i hi
    rw [htag] at hi
    rw [hout i fun k hk => by rw [hi] at hk; cases hk]
    exact hc.idle i hi
  · funext k
    by_cases ht : (lines (slot k)).tag = some k
    · rw [view_hit (by rw [htag]; exact ht), view_hit ht]
      by_cases hS : S k
      · rw [hin _ k ht hS, if_pos hS]
      · rw [hout _ fun m hm => by rw [ht] at hm; cases hm; exact hS, if_neg hS]
    · rw [view_miss (by rw [htag]; exact ht), view_miss ht, hb]

variable [DecidableEq ι]

/-- Writing a line back to its own key leaves the view alone and the cache coherent. -/
theorem Coherent.flush (hc : Coherent slot backing lines) (h : (lines i).tag = some k) :
    Coherent slot (Function.update backing k (lines i).value)
        (Function.update lines i { lines i with dirty := false }) ∧
      view slot (Function.update backing k (lines i).value)
        (Function.update lines i { lines i with dirty := false }) = view slot backing lines := by
  have hk := hc.own i k h
  refine ⟨⟨?_, ?_, ?_⟩, ?_⟩
  · intro j l hj
    obtain rfl | hji := eq_or_ne j i
    · exact hc.own j l (by simpa using hj)
    · exact hc.own j l (by simpa [hji] using hj)
  · intro j l hj hd
    obtain rfl | hji := eq_or_ne j i
    · have hl : l = k := by simpa [h, eq_comm] using hj
      subst hl
      simp
    · have hj' : (lines j).tag = some l := by simpa [hji] using hj
      have hl : l ≠ k := fun he => hji (by rw [← hk, ← he]; exact (hc.own j l hj').symm)
      simpa [hji, hl] using hc.clean j l hj' (by simpa [hji] using hd)
  · intro j hj
    obtain rfl | hji := eq_or_ne j i
    · simp
    · simpa [hji] using hc.idle j (by simpa [hji] using hj)
  · funext l
    obtain rfl | hl := eq_or_ne l k
    · subst hk
      simp [view, h]
    · by_cases hs : slot l = i
      · have ht : (lines (slot l)).tag ≠ some l := by
          rw [hs, h]
          exact fun he => hl (Option.some.inj he).symm
        rw [view_miss ht, view_miss (by simpa [hs] using (hs ▸ ht)), Function.update_of_ne hl]
      · simp [view, hs, hl]

/-- Replacing a clean line by another clean one, whose tag sits in its own slot and whose
value is the backing store's, changes nothing to see. -/
theorem Coherent.replace (hc : Coherent slot backing lines) (hd : (lines i).dirty = false)
    {l : Line K V} (hl : l.dirty = false) (hown : ∀ k, l.tag = some k → slot k = i ∧ l.value = backing k) :
    Coherent slot backing (Function.update lines i l) ∧
      view slot backing (Function.update lines i l) = view slot backing lines := by
  refine ⟨⟨?_, ?_, ?_⟩, ?_⟩
  · intro j m hj
    obtain rfl | hji := eq_or_ne j i
    · exact (hown m (by simpa using hj)).1
    · exact hc.own j m (by simpa [hji] using hj)
  · intro j m hj hdj
    obtain rfl | hji := eq_or_ne j i
    · simpa using (hown m (by simpa using hj)).2
    · simpa [hji] using hc.clean j m (by simpa [hji] using hj) (by simpa [hji] using hdj)
  · intro j hj
    obtain rfl | hji := eq_or_ne j i
    · simpa using hl
    · simpa [hji] using hc.idle j (by simpa [hji] using hj)
  · funext m
    by_cases hs : slot m = i
    · rw [hc.view_of_slot_clean (hs ▸ hd)]
      by_cases ht : l.tag = some m
      · rw [view_hit (by simpa [hs] using ht)]
        simpa [hs] using (hown m ht).2
      · exact view_miss (by simpa [hs] using ht)
    · simp [view, hs]

/-- Storing under a key whose line is already the key's, or is clean, changes the view at
that key and nowhere else. -/
theorem Coherent.store (hc : Coherent slot backing lines) (hi : slot k = i)
    (h : (lines i).tag = some k ∨ (lines i).dirty = false) :
    Coherent slot backing (Function.update lines i ⟨some k, true, v⟩) ∧
      view slot backing (Function.update lines i ⟨some k, true, v⟩) =
        Function.update (view slot backing lines) k v := by
  refine ⟨⟨?_, ?_, ?_⟩, ?_⟩
  · intro j m hj
    obtain rfl | hji := eq_or_ne j i
    · have hm : k = m := by simpa using hj
      rw [← hm, hi]
    · exact hc.own j m (by simpa [hji] using hj)
  · intro j m hj hdj
    obtain rfl | hji := eq_or_ne j i
    · simp at hdj
    · simpa [hji] using hc.clean j m (by simpa [hji] using hj) (by simpa [hji] using hdj)
  · intro j hj
    obtain rfl | hji := eq_or_ne j i
    · simp at hj
    · simpa [hji] using hc.idle j (by simpa [hji] using hj)
  · funext m
    obtain rfl | hm := eq_or_ne m k
    · subst hi
      simp [view]
    · rw [Function.update_of_ne hm]
      by_cases hs : slot m = i
      · have hkm : ¬ k = m := fun he => hm he.symm
        rw [view_miss (by simp [hs, hkm])]
        rcases h with h | h
        · rw [view_miss fun ht => hm (by rw [hs, h] at ht; exact (Option.some.inj ht).symm)]
        · rw [hc.view_of_slot_clean (hs ▸ h)]
      · simp [view, hs]

end

end WriteBack
