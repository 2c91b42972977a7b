import Mathlib.Analysis.SpecialFunctions.Log.Basic
import Mathlib.GroupTheory.FreeGroup.Reduce
import DensityGraph.Operation.Name
/-!
# Words of exponentials and logarithms

Functions that are applied one after another make a word, in which a function that directly
undoes the one before it is dropped together with it.  What is left is the reduced word of
the free group with one generator, and it is the same function of all numbers for which the
whole word makes sense.
-/

namespace DensityGraph

inductive Letter where
  | exp
  | log
deriving Repr, DecidableEq

namespace Letter

def inverse : Letter → Letter
  | exp => log
  | log => exp

def operation : Letter → NamedOperation
  | exp => .exp
  | log => .log

theorem ne_inverse_iff {l m : Letter} : m ≠ l.inverse ↔ m = l := by
  cases l <;> cases m <;> decide

/-- The letter of the free group: the generator or its inverse. -/
def signed (l : Letter) : Unit × Bool :=
  ((), l == exp)

theorem signed_injective : Function.Injective signed := by
  intro l m
  cases l <;> cases m <;> decide

theorem signed_inverse (l : Letter) : l.inverse.signed = (l.signed.1, !l.signed.2) := by
  cases l <;> rfl

noncomputable def function : Letter → ℝ → ℝ
  | exp => Real.exp
  | log => Real.log

/-- Whether the function makes sense: logarithms do for positive numbers. -/
def Defined (l : Letter) (a : ℝ) : Prop :=
  l = log -> 0 < a

theorem function_inverse {l : Letter} {a : ℝ} (h : l.inverse.Defined a) :
    l.function (l.inverse.function a) = a := by
  cases l with
  | exp => exact Real.exp_log (h rfl)
  | log => exact Real.log_exp a

end Letter

/-- Letters, in the order in which they are applied. -/
abbrev Word := List Letter

namespace Word

def push (l : Letter) : List Letter → List Letter
  | [] => [l]
  | m :: rest => if m = l.inverse then rest else l :: m :: rest

theorem push_of_head? {left : List Letter} {l : Letter} (h : left.head? = some l.inverse) :
    push l left = left.tail := by
  cases left with
  | nil => cases h
  | cons m rest =>
      rw [push, if_pos (Option.some.inj h)]
      rfl

theorem push_of_head?_ne {left : List Letter} {l : Letter} (h : left.head? ≠ some l.inverse) :
    push l left = l :: left := by
  cases left with
  | nil => rfl
  | cons m rest => rw [push, if_neg fun heq => h (congrArg some heq)]

def history (word : Word) : List Letter :=
  word.foldl (fun left l => push l left) []

theorem history_concat (word : Word) (l : Letter) :
    history (word ++ [l]) = push l (history word) := by
  rw [history, List.foldl_append]
  rfl

/-!
# Reduced words
-/

def IsHistory (left : List Letter) : Prop :=
  left.IsChain fun l m => m = l

theorem isHistory_push {left : List Letter} (h : IsHistory left) (l : Letter) :
    IsHistory (push l left) := by
  cases left with
  | nil => exact List.isChain_singleton l
  | cons m rest =>
      rw [push]
      split
      · exact h.tail
      · rename_i hne
        exact List.isChain_cons_cons.mpr ⟨Letter.ne_inverse_iff.mp hne, h⟩

theorem isHistory_history (word : Word) : IsHistory (history word) := by
  induction word using List.reverseRecOn with
  | nil => exact List.isChain_nil
  | append_singleton word l ih =>
      rw [history_concat]
      exact isHistory_push ih l

theorem red_push (l : Letter) (left : List Letter) :
    FreeGroup.Red ((left.reverse ++ [l]).map Letter.signed)
      ((push l left).reverse.map Letter.signed) := by
  cases left with
  | nil => exact .refl
  | cons m rest =>
      rw [push]
      split
      · rename_i hm
        have hstep : FreeGroup.Red.Step
            (rest.reverse.map Letter.signed ++ [(l.signed.1, !l.signed.2), l.signed])
            (rest.reverse.map Letter.signed ++ []) := .not_rev
        rw [← Letter.signed_inverse, ← hm, List.append_nil] at hstep
        rw [List.reverse_cons, List.append_assoc, List.map_append]
        exact .single hstep
      · rw [List.reverse_cons (a := l)]

theorem red_history (word : Word) :
    FreeGroup.Red (word.map Letter.signed) ((history word).reverse.map Letter.signed) := by
  induction word using List.reverseRecOn with
  | nil => exact .refl
  | append_singleton word l ih =>
      rw [history_concat]
      refine FreeGroup.Red.trans ?_ (red_push l (history word))
      rw [List.map_append, List.map_append]
      exact ih.append_append .refl

/-- The reduced word of the free group. -/
def reduced (word : Word) : List (Unit × Bool) :=
  FreeGroup.reduce (word.map Letter.signed)

theorem map_signed_history (word : Word) :
    (history word).reverse.map Letter.signed = reduced word := by
  have hreduced : FreeGroup.IsReduced ((history word).reverse.map Letter.signed) := by
    rw [FreeGroup.IsReduced, List.isChain_map, List.isChain_reverse]
    apply (isHistory_history word).imp
    intro l m heq _
    rw [heq]
  rw [reduced, FreeGroup.reduce.eq_of_red (red_history word), hreduced.reduce_eq]

theorem head?_history_iff {word : Word} {l : Letter} :
    (history word).head? = some l ↔ (reduced word).getLast? = some l.signed := by
  rw [← map_signed_history, List.getLast?_map, List.getLast?_reverse,
    ← Option.map_some, (Option.map_injective Letter.signed_injective).eq_iff]

theorem map_signed_tail_history (word : Word) :
    (history word).tail.reverse.map Letter.signed =
      (reduced word).dropLast := by
  rw [← map_signed_history, ← List.map_dropLast, List.dropLast_reverse]

/-!
# Words as functions
-/

/-- The function that a word is, of one number. -/
noncomputable def compose (word : Word) (a : ℝ) : ℝ :=
  word.foldl (fun b l => l.function b) a

/-- Whether every logarithm in a word has a positive argument. -/
def Defined : Word → ℝ → Prop
  | [], _ => True
  | l :: rest, a => l.Defined a ∧ Defined rest (l.function a)

theorem compose_concat (word : Word) (l : Letter) (a : ℝ) :
    compose (word ++ [l]) a = l.function (compose word a) := by
  rw [compose, List.foldl_append]
  rfl

theorem defined_concat {word : Word} {l : Letter} {a : ℝ} :
    Defined (word ++ [l]) a ↔ Defined word a ∧ l.Defined (compose word a) := by
  induction word generalizing a with
  | nil => simp [Defined, compose]
  | cons m rest ih =>
      rw [List.cons_append, Defined, Defined, ih, and_assoc]
      rfl

theorem defined_push {left : List Letter} {l : Letter} {a : ℝ}
    (h : Defined left.reverse a) (hl : l.Defined (compose left.reverse a)) :
    Defined (push l left).reverse a ∧
      compose (push l left).reverse a = l.function (compose left.reverse a) := by
  cases left with
  | nil => exact ⟨⟨hl, trivial⟩, rfl⟩
  | cons m rest =>
      rw [push]
      split
      · rename_i hm
        rw [List.reverse_cons, defined_concat, hm] at h
        rw [List.reverse_cons, compose_concat, hm, Letter.function_inverse h.2]
        exact ⟨h.1, rfl⟩
      · rw [List.reverse_cons (a := l), defined_concat, compose_concat]
        exact ⟨⟨h, hl⟩, rfl⟩

theorem compose_history {word : Word} {a : ℝ} (h : Defined word a) :
    Defined (history word).reverse a ∧ compose (history word).reverse a = compose word a := by
  induction word using List.reverseRecOn with
  | nil => exact ⟨h, rfl⟩
  | append_singleton word l ih =>
      rcases defined_concat.mp h with ⟨hword, hl⟩
      rcases ih hword with ⟨hdefined, hcompose⟩
      rw [history_concat, compose_concat, ← hcompose]
      rw [← hcompose] at hl
      exact defined_push hdefined hl

end Word
end DensityGraph
