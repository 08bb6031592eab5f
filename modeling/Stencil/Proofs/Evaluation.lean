import Stencil.Proofs.Constants
import Stencil.Proofs.Folding

/-!
# Evaluating constant code

An evaluation starts on empty stacks, while the code it stands for runs on top of whatever a render
has left there. For code that pushes constants and calls pure functions the two agree: no call
reaches below its own operands, so what the evaluation leaves is what the code pushes in every
state, and what the instructions push that folding puts in its place. Code that fails in some state
fails when it is evaluated, and then it is kept.
-/

namespace Stencil

namespace Compile

variable {c : Context} {s s' : State} {pos : Pos} {body g : Fragment} {values : List Value}

/-- What an evaluation of constant code leaves is what the code pushes on every machine. -/
theorem pushes_of_evaluate {schema : Schema} {t : Tables} {code : Array Instr} {fuel : Nat}
    {l m : Machine} (hcode : ∀ i ∈ code.toList, isConstant t i) (hstack : m.stack = [])
    (h : m.evaluate schema t fuel code = .done values l) :
    Pushes schema t code.toList values.reverse := by
  have hstraight : Straight code.toList := fun i hi => Machine.isStraight_of_isConstant (hcode i hi)
  obtain ⟨l', hsteps, rfl⟩ := Machine.evaluateFrom_eq_done hstraight h
  rw [List.reverse_reverse]
  exact Machine.pushes_of_isConstant (.refl t) hcode (by exact hstack) hsteps

/-- Constant code that fails on some machine fails when it is evaluated. -/
theorem exists_evaluate_eq_failed {schema : Schema} {t : Tables} {code : Array Instr} {fuel : Nat}
    {e : RuntimeError} {sink : Sink} {streams : Streams} {l m : Machine}
    (hcode : ∀ i ∈ code.toList, isConstant t i) (hstack : l.stack = []) (hfuel : code.size < fuel)
    (h : m.steps schema t code.toList = .failed e sink streams) :
    ∃ e' l', l.evaluate schema t fuel code = .failed e' l' := by
  have hstraight : Straight code.toList := fun i hi => Machine.isStraight_of_isConstant (hcode i hi)
  rcases Machine.evaluateFrom_eq_steps schema t fuel { l.bind Tables.rootVar .nil with dot := .nil }
      hstraight (Nat.zero_le _) (show code.size < 0 + fuel by omega) with ⟨l', -, hdone⟩ | ⟨e', l', -, hfailed⟩
  · have hpushes := pushes_of_evaluate hcode hstack hdone m
    rw [h] at hpushes
    cases hpushes
  · exact ⟨e', l', hfailed⟩

/-- An evaluation that ends within its fuel has the result that folding uses. -/
theorem evaluate?_of_evaluate {schema : Schema} {t : Tables} {code : Array Instr} {fuel : Nat}
    {l : Machine} (hcode : Straight code.toList)
    (h : Machine.evaluate schema t fuel code (.fresh .unlimited .none) = .done values l) :
    evaluate? schema t code = some values := by
  obtain ⟨l₁, hsteps, rfl⟩ := Machine.evaluateFrom_eq_done hcode h
  rw [Machine.evaluate?_eq_steps schema t hcode]
  exact Outcome.values?_eq_some.mpr ⟨l₁, hsteps, rfl⟩

/-- Whether code consists of instructions that push the given values, the first one first. -/
def IsValues (t : Tables) (code : List Instr) (values : List Value) : Prop :=
  ∃ indices : List Nat, code = indices.map .val ∧ indices.map (t.values[·]?) = values.map some

/-- Code that stands for values pushes them. -/
theorem IsValues.pushes {schema : Schema} {t : Tables} {code : List Instr}
    (h : IsValues t code values) : Pushes schema t code values.reverse := by
  obtain ⟨indices, rfl, hentries⟩ := h
  exact pushes_map_val hentries

/-- Folding evaluates code that may be folded, and pushes its values if it has any. -/
theorem fold_eq (body : Fragment) : fold c pos body s =
    (if c.options.foldConstants && decide (1 < body.size) && body.code.all (isConstant s.tables) then
      match evaluate? c.schema s.tables body.code with
      | some values => pushValues c pos .empty values
      | none => return body
    else return body : M Fragment) s := rfl

/-- Folding puts instructions that push the values in the place of constant code that evaluates to
them, if it is asked for and there is more than one instruction. -/
theorem isValues_of_fold (hconstant : ∀ i ∈ body.instrs, isConstant s.tables i)
    (hvalues : evaluate? c.schema s.tables body.code = some values)
    (h : fold c pos body s = .ok (g, s')) :
    if c.options.foldConstants ∧ 1 < body.size then IsValues s'.tables g.instrs values
    else g = body ∧ s' = s := by
  have hall : body.code.all (isConstant s.tables) = true := by
    rw [Array.all_eq_true_iff_forall_mem]
    exact fun i hi => hconstant i (Array.mem_toList_iff.mpr hi)
  rw [fold_eq, hall, Bool.and_true] at h
  by_cases hfold : c.options.foldConstants ∧ 1 < body.size
  · rw [if_pos (by simpa using hfold), hvalues] at h
    rw [if_pos hfold]
    obtain ⟨-, indices, hcode, hentries⟩ := (ensures_pushValues values).of_ok h
    exact ⟨indices, hcode, hentries⟩
  · rw [if_neg (by simpa using hfold)] at h
    rw [if_neg hfold]
    cases h
    exact ⟨rfl, rfl⟩

/-- Folding keeps code whose evaluation fails. -/
theorem fold_eq_self (h : evaluate? c.schema s.tables body.code = none) :
    fold c pos body s = .ok (body, s) := by
  rw [fold_eq, h]
  split <;> rfl

/-- Evaluating constant code tells what it does in every state. If an evaluation on empty stacks
leaves values, the code pushes just these on every machine and does nothing else, and so does the code
that folding makes of it, which pushes them one by one. If the code fails in some state, every
evaluation that is given enough fuel fails too, and folding keeps the code. -/
theorem evaluation_is_faithful (hconstant : ∀ i ∈ body.instrs, isConstant s.tables i) :
    (∀ fuel values l,
        Machine.evaluate c.schema s.tables fuel body.code (.fresh .unlimited .none) = .done values l →
      (∀ m : Machine, m.steps c.schema s.tables body.instrs =
        .done { m with stack := values.reverse ++ m.stack }) ∧
      ∀ pos g s', fold c pos body s = .ok (g, s') →
        (if c.options.foldConstants ∧ 1 < body.size then IsValues s'.tables g.instrs values
          else g = body ∧ s' = s) ∧
        ∀ m : Machine, m.steps c.schema s'.tables g.instrs =
          .done { m with stack := values.reverse ++ m.stack }) ∧
    ∀ (m : Machine) e sink streams,
      m.steps c.schema s.tables body.instrs = .failed e sink streams →
      (∀ fuel, body.size < fuel → ∃ e' l,
        Machine.evaluate c.schema s.tables fuel body.code (.fresh .unlimited .none) = .failed e' l) ∧
      ∀ pos, fold c pos body s = .ok (body, s) := by
  have hstraight : Straight body.instrs := fun i hi => Machine.isStraight_of_isConstant (hconstant i hi)
  constructor
  · intro fuel values l hdone
    have hpushes := pushes_of_evaluate hconstant (by rfl) hdone
    refine ⟨hpushes, fun pos g s' hfold => ?_⟩
    have hresult := isValues_of_fold hconstant (evaluate?_of_evaluate hstraight hdone) hfold
    refine ⟨hresult, ?_⟩
    split at hresult
    · exact hresult.pushes
    · obtain ⟨rfl, rfl⟩ := hresult
      exact hpushes
  · intro m e sink streams hfails
    have hfailed (fuel : Nat) (hfuel : body.size < fuel) :=
      exists_evaluate_eq_failed (l := .fresh .unlimited .none) hconstant rfl hfuel hfails
    refine ⟨hfailed, fun pos => fold_eq_self ?_⟩
    obtain ⟨e', l, hevaluate⟩ := hfailed (body.size + 1) (Nat.lt_succ_self _)
    unfold evaluate?
    rw [show body.code.size + 1 = body.size + 1 from rfl, hevaluate]

end Compile

namespace Sample

open Compile

/-- A state of compilation that knows the text `abc` and the function `len`. -/
def lengths : State where
  tables := { Tables.initial with
    strings := #["", "Vars", "abc"]
    texts := #["", "Vars", "abc"]
    funcs := #[.unary "len" .any .int Builtin.len] }
  noPrint := false
  declared := []

/-- `len "abc"` -/
def measured : Fragment := .ofCode #[.string 2, .func 1 0]

/-- `len (len "abc")` -/
def measuredTwice : Fragment := .ofCode #[.string 2, .func 1 0, .func 1 0]

/-- A context in which constants are folded. -/
def folding : Context := ⟨constants, builtins, ⟨true, true, false⟩, .plain, "main", none⟩

end Sample

namespace Compile

open Sample

/-- The length of a text is known in every state, and that of a length in none. -/
theorem evaluation_is_faithful_sample :
    (∀ i ∈ measured.instrs, isConstant lengths.tables i) ∧
    (∀ m : Machine, m.steps .plain lengths.tables measured.instrs =
      .done { m with stack := .int 3 :: m.stack }) ∧
    (∃ g s', fold folding 0 measured lengths = .ok (g, s') ∧
      IsValues s'.tables g.instrs [.int 3]) ∧
    (∀ i ∈ measuredTwice.instrs, isConstant lengths.tables i) ∧
    (∃ e l, Machine.evaluate .plain lengths.tables 4 measuredTwice.code (.fresh .unlimited .none) =
      .failed e l) ∧
    fold folding 0 measuredTwice lengths = .ok (measuredTwice, lengths) := by
  have hmeasured : ∀ i ∈ measured.instrs, isConstant lengths.tables i := by decide
  have htwice : ∀ i ∈ measuredTwice.instrs, isConstant lengths.tables i := by decide
  obtain ⟨hpushes, hfold⟩ :=
    (evaluation_is_faithful (c := folding) hmeasured).1 3 [.int 3] _ rfl
  obtain ⟨hfailed, hkept⟩ := (evaluation_is_faithful (c := folding) htwice).2
    (.fresh .unlimited .none) _ _ _ rfl
  obtain ⟨⟨g, s'⟩, hrun⟩ :=
    exists_of_isOk (show (fold folding 0 measured lengths).isOk by decide +kernel)
  exact ⟨hmeasured, hpushes, ⟨g, s', hrun, (hfold 0 g s' hrun).1⟩, htwice, hfailed 4 (by decide), hkept 0⟩

end Compile
end Stencil
