import Mathlib.Data.List.Basic

/-! Programs that only ask. What they come to depends on the answers alone: a run against one
server is replayed against every other that gives the same answers. -/
namespace Readers

variable {Q : Type} {A : Q → Type} {R R' S T : Type}

/-- A program over queries and their answers: it has a result, or it asks and goes on with the answer. -/
inductive Reader (Q : Type) (A : Q → Type) (R : Type)
  | done (result : R)
  | ask (query : Q) (next : A query → Reader Q A R)

namespace Reader

/-- The result of one program decides the program that follows. -/
def bind : Reader Q A R → (R → Reader Q A R') → Reader Q A R'
  | .done result, next => next result
  | .ask query rest, next => .ask query fun a => (rest a).bind next

/-- Whatever the answers, all queries and the result are of these kinds. -/
def Within (P : Q → Prop) (Post : R → Prop) : Reader Q A R → Prop
  | .done result => Post result
  | .ask query next => P query ∧ ∀ a, (next a).Within P Post

variable {P : Q → Prop} {Post : R → Prop}

theorem Within.bind {Post' : R' → Prop} {p : Reader Q A R} {next : R → Reader Q A R'} (h : p.Within P Post)
    (hnext : ∀ r, Post r → (next r).Within P Post') : (p.bind next).Within P Post' := by
  induction p with
  | done result => exact hnext result h
  | ask query rest ih => exact ⟨h.1, fun a => ih a (h.2 a)⟩

variable (serve : S → (q : Q) → A q × S) (serve' : T → (q : Q) → A q × T)

/-- The program against a server, which changes its state with each query. -/
def run : Reader Q A R → S → R × S
  | .done result, s => (result, s)
  | .ask query next, s => (next (serve s query).1).run (serve s query).2

/-- The queries of a run, with their answers. -/
def transcript : Reader Q A R → S → List (Σ q, A q)
  | .done _, _ => []
  | .ask query next, s => ⟨query, (serve s query).1⟩ :: (next (serve s query).1).transcript (serve s query).2

/-- The server would give these answers to these queries, one after the other. -/
def Answers : S → List (Σ q, A q) → Prop
  | _, [] => True
  | s, ⟨query, answer⟩ :: rest => (serve s query).1 = answer ∧ Answers (serve s query).2 rest

variable {serve serve'} {p : Reader Q A R} {s : S} {t : T}

theorem run_bind (p : Reader Q A R) (next : R → Reader Q A R') (s : S) :
    (p.bind next).run serve s = (next (p.run serve s).1).run serve (p.run serve s).2 := by
  induction p generalizing s with
  | done result => rfl
  | ask query rest ih => exact ih (serve s query).1 (serve s query).2

theorem Within.run (h : p.Within P Post) : Post (p.run serve s).1 := by
  induction p generalizing s with
  | done result => exact h
  | ask query next ih => exact ih _ (h.2 _)

theorem Within.transcript (h : p.Within P Post) : ∀ e ∈ p.transcript serve s, P e.1 := by
  induction p generalizing s with
  | done result => simp [Reader.transcript]
  | ask query next ih =>
    intro e he
    rw [Reader.transcript] at he
    rcases List.mem_cons.mp he with rfl | he
    · exact h.1
    · exact ih _ (h.2 _) e he

/-- A server with the same answers leads to the same result, by the same queries. -/
theorem replay (h : Answers serve' t (p.transcript serve s)) :
    (p.run serve' t).1 = (p.run serve s).1 ∧ p.transcript serve' t = p.transcript serve s := by
  induction p generalizing s t with
  | done result => exact ⟨rfl, rfl⟩
  | ask query next ih =>
    obtain ⟨hanswer, hrest⟩ := h
    rw [Reader.run, Reader.run, Reader.transcript, Reader.transcript, hanswer]
    obtain ⟨hresult, htranscript⟩ := ih (serve s query).1 hrest
    exact ⟨hresult, congrArg _ htranscript⟩

/-- Two servers in a relation that the queries of a run keep give the same answers. -/
theorem answers_of_related {I : S → T → Prop} (h : I s t)
    (hstep : ∀ e ∈ p.transcript serve s, ∀ s t, I s t →
      (serve' t e.1).1 = (serve s e.1).1 ∧ I (serve s e.1).2 (serve' t e.1).2) :
    Answers serve' t (p.transcript serve s) := by
  induction p generalizing s t with
  | done result => trivial
  | ask query next ih =>
    rw [Reader.transcript] at hstep ⊢
    obtain ⟨hanswer, hrel⟩ := hstep _ List.mem_cons_self s t h
    exact ⟨hanswer, ih _ hrel fun e he => hstep e (List.mem_cons_of_mem _ he)⟩

/-- What each query of a run keeps, its end keeps; what each then answers, all of them answer. -/
theorem run_invariant {I : S → Prop} {J : (Σ q, A q) → Prop} (hs : I s)
    (hstep : ∀ e ∈ p.transcript serve s, ∀ s, I s → I (serve s e.1).2 ∧ J ⟨e.1, (serve s e.1).1⟩) :
    I (p.run serve s).2 ∧ ∀ e ∈ p.transcript serve s, J e := by
  induction p generalizing s with
  | done result => exact ⟨hs, by simp [Reader.transcript]⟩
  | ask query next ih =>
    rw [Reader.transcript] at hstep ⊢
    obtain ⟨hinv, hhead⟩ := hstep _ List.mem_cons_self s hs
    obtain ⟨hend, hrest⟩ := ih _ hinv fun e he => hstep e (List.mem_cons_of_mem _ he)
    exact ⟨hend, List.forall_mem_cons.mpr ⟨hhead, hrest⟩⟩

end Reader

end Readers
