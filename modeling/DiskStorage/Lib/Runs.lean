import Mathlib.Data.List.Basic
import Mathlib.Data.List.Induction

/-! Labelled runs of a step relation, each step kept with the state after it.
Invariants, simulations and loops with fuel are packaged once and used at every machine built on it. -/
namespace Runs
variable {S A L : Type*}

/-- From the first state the steps of the list happen in order. -/
inductive Run (step : S → L → S → Prop) : S → List (L × S) → Prop where
  | nil (s : S) : Run step s []
  | cons {s t : S} {l : L} {tr : List (L × S)} :
      step s l t → Run step t tr → Run step s ((l, t) :: tr)

/-- The state a trace ends in. -/
def last (s : S) : List (L × S) → S
  | [] => s
  | (_, t) :: tr => last t tr

variable {step : S → L → S → Prop}

@[simp] theorem last_nil (s : S) : last s ([] : List (L × S)) = s := rfl

@[simp] theorem last_cons (s t : S) (l : L) (tr : List (L × S)) :
    last s ((l, t) :: tr) = last t tr := rfl

@[simp] theorem last_append (s : S) (pre post : List (L × S)) :
    last s (pre ++ post) = last (last s pre) post := by
  induction pre generalizing s with
  | nil => rfl
  | cons e pre ih => exact ih e.2

theorem last_mem (s : S) (tr : List (L × S)) : last s tr ∈ s :: tr.map Prod.snd := by
  induction tr generalizing s with
  | nil => exact List.mem_cons_self
  | cons e tr ih => exact List.mem_cons_of_mem _ (ih e.2)

theorem run_append_iff {s : S} {pre post : List (L × S)} :
    Run step s (pre ++ post) ↔ Run step s pre ∧ Run step (last s pre) post := by
  induction pre generalizing s with
  | nil => exact ⟨fun h => ⟨.nil s, h⟩, fun h => h.2⟩
  | cons e pre ih =>
    constructor
    · intro h
      cases h with
      | cons hs ht => exact ⟨.cons hs (ih.mp ht).1, (ih.mp ht).2⟩
    · rintro ⟨hp, hq⟩
      cases hp with
      | cons hs ht => exact .cons hs (ih.mpr ⟨ht, hq⟩)

/-- A predicate kept by every step with an allowed label holds after every run. -/
theorem Run.invariant {I : S → Prop} {ok : L → Prop} {s : S} {tr : List (L × S)}
    (h : Run step s tr) (h0 : I s) (hok : ∀ e ∈ tr, ok e.1)
    (hstep : ∀ s l t, I s → ok l → step s l t → I t) : I (last s tr) := by
  induction h with
  | nil => exact h0
  | cons hs _ ih =>
    have hl := hok _ (List.mem_cons_self ..)
    exact ih (hstep _ _ _ h0 hl hs) fun e he => hok e (List.mem_cons_of_mem _ he)

/-- A map that carries every step into a step of another relation carries runs into
runs, state by state. -/
theorem Run.simulate {abs : S → A} {astep : A → L → A → Prop} {I : S → Prop} {ok : L → Prop}
    {s : S} {tr : List (L × S)} (h : Run step s tr) (h0 : I s) (hok : ∀ e ∈ tr, ok e.1)
    (hstep : ∀ s l t, I s → ok l → step s l t → I t ∧ astep (abs s) l (abs t)) :
    Run astep (abs s) (tr.map fun e => (e.1, abs e.2)) := by
  induction h with
  | nil => exact .nil _
  | cons hs _ ih =>
    have hl := hok _ (List.mem_cons_self ..)
    obtain ⟨hI, ha⟩ := hstep _ _ _ h0 hl hs
    exact .cons ha (ih hI fun e he => hok e (List.mem_cons_of_mem _ he))

section Shares
variable {S' L' : Type*} {step' : S' → L' → S' → Prop} {own : L → Option L'} {view : S → S'} {s : S} {tr : List (L × S)}

/-- What a part of a system has of a run: the steps that are its own, as it sees them, and its view of the states
they lead to. -/
def share (own : L → Option L') (view : S → S') (tr : List (L × S)) : List (L' × S') :=
  tr.filterMap fun e => (own e.1).map (·, view e.2)

theorem share_cons_own {l : L} {l' : L'} {t : S} (h : own l = some l') :
    share own view ((l, t) :: tr) = (l', view t) :: share own view tr := by
  rw [share, List.filterMap_cons, h]
  rfl

theorem share_cons_other {l : L} {t : S} (h : own l = none) : share own view ((l, t) :: tr) = share own view tr := by
  rw [share, List.filterMap_cons, h]
  rfl

/-- The steps of the others leave the view alone, so a run is one of the part too. This ends with the view of the
end, and the view of each state is a state of it. -/
theorem Run.share {I : S → Prop} {P : L → Prop} (h : Run step s tr) (h0 : I s) (hok : ∀ e ∈ tr, P e.1)
    (hstep : ∀ s l t, I s → P l → step s l t → I t ∧ (∀ l', own l = some l' → step' (view s) l' (view t)) ∧
      (own l = none → view t = view s)) :
    Run step' (view s) (share own view tr) ∧ last (view s) (share own view tr) = view (last s tr) ∧
      ∀ t ∈ s :: tr.map Prod.snd, view t ∈ view s :: (share own view tr).map Prod.snd := by
  induction h with
  | nil => exact ⟨.nil _, rfl, by simp⟩
  | @cons s t l tr hs _ ih =>
    obtain ⟨hI, hown, hother⟩ := hstep _ _ _ h0 (hok _ List.mem_cons_self) hs
    obtain ⟨hrun, hlast, hviews⟩ := ih hI fun e he => hok e (List.mem_cons_of_mem _ he)
    rcases hl : own l with _ | l'
    · rw [share_cons_other hl, last_cons, ← hother hl]
      refine ⟨hrun, hlast, fun u hu => ?_⟩
      rcases List.mem_cons.mp hu with rfl | hu
      · rw [hother hl]
        exact List.mem_cons_self
      · exact hviews u hu
    · rw [share_cons_own hl]
      refine ⟨.cons (hown l' hl) hrun, hlast, fun u hu => ?_⟩
      rcases List.mem_cons.mp hu with rfl | hu
      · exact List.mem_cons_self
      · exact List.mem_cons_of_mem _ (hviews u hu)

end Shares

/-- Where a key of the label determines a step, the keys determine a run. -/
theorem Run.unique {K : Type*} (key : L → K) {s : S} {tr tr' : List (L × S)}
    (hstep : ∀ s l t l' t', step s l t → step s l' t' → key l = key l' → l = l' ∧ t = t')
    (h : Run step s tr) (h' : Run step s tr') (hkeys : tr.map (fun e => key e.1) = tr'.map fun e => key e.1) :
    tr = tr' := by
  induction h generalizing tr' with
  | nil =>
    rw [List.map_nil] at hkeys
    exact (List.map_eq_nil_iff.mp hkeys.symm).symm
  | cons hs _ ih =>
    cases h' with
    | nil => cases hkeys
    | cons hs' hrest =>
      obtain ⟨hkey, hrestKeys⟩ := List.cons.inj hkeys
      obtain ⟨rfl, rfl⟩ := hstep _ _ _ _ _ hs hs' hkey
      rw [ih hrest hrestKeys]

/-- The states that some run leads to. -/
def Reach (step : S → L → S → Prop) (s t : S) : Prop := ∃ tr, Run step s tr ∧ last s tr = t

theorem Reach.refl (s : S) : Reach step s s := ⟨[], .nil s, rfl⟩

theorem Reach.tail {s t u : S} {l : L} (h : Reach step s t) (hs : step t l u) : Reach step s u := by
  obtain ⟨tr, hr, rfl⟩ := h
  exact ⟨tr ++ [(l, u)], run_append_iff.mpr ⟨hr, .cons hs (.nil u)⟩, last_append s tr _⟩

theorem Reach.head {s t u : S} {l : L} (hs : step s l t) (h : Reach step t u) : Reach step s u := by
  obtain ⟨tr, hr, rfl⟩ := h
  exact ⟨(l, t) :: tr, .cons hs hr, rfl⟩

/-- A predicate that every step from a reachable state keeps holds of every reachable state. -/
theorem Reach.invariant {I : S → Prop} {s t : S} (h : Reach step s t) (h0 : I s)
    (hstep : ∀ t l u, Reach step s t → I t → step t l u → I u) : I t := by
  obtain ⟨tr, hr, rfl⟩ := h
  induction tr using List.reverseRecOn with
  | nil => exact h0
  | append_singleton tr e ih =>
    obtain ⟨hpre, hlast⟩ := run_append_iff.mp hr
    cases hlast with
    | cons hs _ =>
      rw [last_append]
      exact hstep _ _ _ ⟨tr, hpre, rfl⟩ (ih hpre) hs

section Fuel
variable {R : Type*} {stops : S → R → Prop} {loop : Nat → S → Option R} {s t : S} {l : L} {r r' : R} {fuel fuel' : Nat}

/-- A loop with fuel: from each state it stops with a result, or goes on with the step. -/
structure Fueled (step : S → L → S → Prop) (stops : S → R → Prop) (loop : Nat → S → Option R) : Prop where
  zero : ∀ s, loop 0 s = none
  stop : ∀ s r, stops s r → ∀ fuel, loop (fuel + 1) s = some r
  go : ∀ s l t, step s l t → ∀ fuel, loop (fuel + 1) s = loop fuel t
  progress : ∀ s, (∃ r, stops s r) ∨ ∃ l t, step s l t

namespace Fueled

/-- What the loop returns is the result of a state that it reaches. -/
theorem reach (h : Fueled step stops loop) (hr : loop fuel s = some r) : ∃ t, Reach step s t ∧ stops t r := by
  induction fuel generalizing s with
  | zero =>
    rw [h.zero] at hr
    cases hr
  | succ fuel ih =>
    rcases h.progress s with ⟨r', hstop⟩ | ⟨l, t, hstep⟩
    · rw [h.stop s r' hstop] at hr
      cases hr
      exact ⟨s, Reach.refl s, hstop⟩
    · rw [h.go s l t hstep] at hr
      obtain ⟨u, hreach, hstop⟩ := ih hr
      exact ⟨u, hreach.head hstep, hstop⟩

/-- No step is taken from a state where the loop stops. -/
theorem stays (h : Fueled step stops loop) (hstop : stops s r) (hreach : Reach step s t) : t = s := by
  obtain ⟨tr, hrun, rfl⟩ := hreach
  cases hrun with
  | nil => rfl
  | cons hstep _ =>
    have hone := h.stop s r hstop 0
    rw [h.go _ _ _ hstep, h.zero] at hone
    cases hone

/-- More fuel than it takes does not change the result. -/
theorem mono (h : Fueled step stops loop) (hr : loop fuel s = some r) (hle : fuel ≤ fuel') :
    loop fuel' s = some r := by
  induction fuel generalizing s fuel' with
  | zero =>
    rw [h.zero] at hr
    cases hr
  | succ fuel ih =>
    obtain ⟨more, rfl⟩ := Nat.exists_eq_add_of_le hle
    rw [Nat.add_right_comm]
    rcases h.progress s with ⟨r', hstop⟩ | ⟨l, t, hstep⟩
    · rw [h.stop s r' hstop] at hr ⊢
      exact hr
    · rw [h.go s l t hstep] at hr ⊢
      exact ih hr (Nat.le_add_right _ _)

theorem unique (h : Fueled step stops loop) (hr : loop fuel s = some r) (hr' : loop fuel' s = some r') : r = r' := by
  have hmax := h.mono hr (Nat.le_max_left fuel fuel')
  rw [h.mono hr' (Nat.le_max_right fuel fuel')] at hmax
  exact (Option.some.inj hmax).symm

/-- What the loop returns from a state on the way it returns from the first one. -/
theorem of_reach (h : Fueled step stops loop) (hreach : Reach step s t) (hr : loop fuel t = some r) :
    ∃ fuel', loop fuel' s = some r := by
  obtain ⟨tr, hrun, rfl⟩ := hreach
  induction hrun with
  | nil => exact ⟨fuel, hr⟩
  | cons hstep _ ih =>
    obtain ⟨fuel', hr'⟩ := ih hr
    exact ⟨fuel' + 1, (h.go _ _ _ hstep fuel').trans hr'⟩

/-- What does not end from a state on the way does not end at all. -/
theorem never (h : Fueled step stops loop) (hreach : Reach step s t) (hnever : ∀ fuel, loop fuel t = none)
    (fuel : Nat) : loop fuel s = none := by
  obtain ⟨tr, hrun, rfl⟩ := hreach
  induction hrun generalizing fuel with
  | nil => exact hnever fuel
  | cons hstep _ ih =>
    cases fuel with
    | zero => exact h.zero _
    | succ fuel => exact (h.go _ _ _ hstep fuel).trans (ih fuel hnever)

/-- A step that leads nowhere is taken again and again. -/
theorem stuck (h : Fueled step stops loop) (hstep : step s l s) (fuel : Nat) : loop fuel s = none := by
  induction fuel with
  | zero => exact h.zero s
  | succ fuel ih => exact (h.go s l s hstep fuel).trans ih

/-- The loop ends when each step lowers a rank. -/
theorem ends (h : Fueled step stops loop) {rank : S → Nat}
    (hrank : ∀ t l u, Reach step s t → step t l u → rank u < rank t) (hfuel : rank s < fuel) :
    ∃ r, loop fuel s = some r := by
  induction fuel generalizing s with
  | zero => exact absurd hfuel (Nat.not_lt_zero _)
  | succ fuel ih =>
    rcases h.progress s with ⟨r, hstop⟩ | ⟨l, t, hstep⟩
    · exact ⟨r, h.stop s r hstop fuel⟩
    · rw [h.go s l t hstep]
      have hless := hrank s l t (Reach.refl s) hstep
      apply ih (fun u l v hreach => hrank u l v (hreach.head hstep))
      omega

end Fueled

end Fuel

end Runs
