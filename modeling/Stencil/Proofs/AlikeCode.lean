import Stencil.Proofs.Balance
import Stencil.Proofs.Constants
import Stencil.Proofs.Lockstep

/-!
# Pipelines in lockstep

The code of one pipeline compiled twice. The constants have other indices and what has been folded
is shorter, but the steps of both codes lead every machine to the same end, and both leave the same
number of values.
-/

namespace Stencil

open Fragment (pushed popped)

/-- Whether two codes do the same in every two tables that grow from the given ones and stay alike,
and whether the same is known about the number of values they leave. -/
structure CodeAlike (schema : Schema) (t t' : Tables) (code code' : List Instr) : Prop where
  left : Straight code
  right : Straight code'
  fields : code.any Instr.isField = code'.any Instr.isField
  count : pushed code + popped code' = pushed code' + popped code
  steps : ∀ u u' : Tables, t.Extends u → t'.Extends u' → u.Alike u' → ∀ m : Machine,
    m.steps schema u code = m.steps schema u' code'

/-- A step depends on nothing in the tables but the strings and the functions, unless it pushes or
writes a constant. -/
theorem Machine.step_of_alike {schema : Schema} {t t' : Tables} (h : t.Alike t') {i : Instr}
    (hi : i.isStraight) (hval : ∀ index, i ≠ .val index) (hwb : ∀ index, i ≠ .wb index) (m : Machine) :
    m.step schema t i = m.step schema t' i := by
  have hunbound : unbound t = unbound t' := by
    funext name
    rw [unbound, unbound, h.strings]
  cases i with
  | val index => exact absurd rfl (hval index)
  | wb index => exact absurd rfl (hwb index)
  | field argc name => simp only [step, h.strings]
  | func argc index => simp only [step, h.funcs]
  | string index => simp only [step, h.texts]
  | var name => simp only [step, hunbound]
  | setVar name assign => simp only [step, hunbound]
  | dot | print => rfl
  | _ => cases hi

namespace CodeAlike

variable {schema : Schema} {t t' u u' : Tables} {code code' rest rest' : List Instr}

/-- No code is alike no code. -/
theorem nil : CodeAlike schema t t' [] [] :=
  ⟨straight_nil, straight_nil, rfl, rfl, fun _ _ _ _ _ _ => rfl⟩

/-- What is known of two codes that are alike is known of them in either order. -/
theorem symm (h : CodeAlike schema t t' code code') : CodeAlike schema t' t code' code where
  left := h.right
  right := h.left
  fields := h.fields.symm
  count := h.count.symm
  steps u u' hleft hright halike m := (h.steps u' u hright hleft halike.symm m).symm

/-- Codes stay alike when the tables grow. -/
theorem mono (h : CodeAlike schema t t' code code') (hleft : t.Extends u) (hright : t'.Extends u') :
    CodeAlike schema u u' code code' :=
  { h with steps := fun v v' hv hv' => h.steps v v' (hleft.trans hv) (hright.trans hv') }

/-- Codes that are alike stay alike when alike codes are put behind them. -/
theorem append (h : CodeAlike schema t t' code code') (h' : CodeAlike schema t t' rest rest') :
    CodeAlike schema t t' (code ++ rest) (code' ++ rest') where
  left := h.left.append h'.left
  right := h.right.append h'.right
  fields := by rw [List.any_append, List.any_append, h.fields, h'.fields]
  count := by
    have hfirst := h.count
    have hsecond := h'.count
    simp only [pushed, popped, Fragment.total_append] at hfirst hsecond ⊢
    omega
  steps u u' hleft hright halike m := by
    rw [Machine.steps_append, Machine.steps_append, h.steps u u' hleft hright halike m]
    cases m.steps schema u' code' with
    | done l => exact h'.steps u u' hleft hright halike l
    | failed e sink streams => rfl

/-- An instruction that refers to no constant is alike in both tables. -/
theorem singleton {i : Instr} (hi : i.isStraight) (hval : ∀ index, i ≠ .val index)
    (hwb : ∀ index, i ≠ .wb index) : CodeAlike schema t t' [i] [i] where
  left := straight_singleton hi
  right := straight_singleton hi
  fields := rfl
  count := rfl
  steps u u' _ _ halike m := by
    rw [Machine.steps, Machine.steps, Machine.step_of_alike halike hi hval hwb]
    rfl

/-- Pushing a value is alike, whatever its index. -/
theorem val {v : Value} {i i' : Nat} (hi : t.values[i]? = some v) (hi' : t'.values[i']? = some v) :
    CodeAlike schema t t' [.val i] [.val i'] where
  left := straight_singleton rfl
  right := straight_singleton rfl
  fields := rfl
  count := rfl
  steps u u' hleft hright _ m := by
    simp only [Machine.steps, Machine.step, hleft.values _ _ hi, hright.values _ _ hi']

/-- Writing a chunk is alike, whatever its index. -/
theorem wb {bytes : ByteArray} {i i' : Nat} (hi : t.chunks[i]? = some bytes)
    (hi' : t'.chunks[i']? = some bytes) : CodeAlike schema t t' [.wb i] [.wb i'] where
  left := straight_singleton rfl
  right := straight_singleton rfl
  fields := rfl
  count := rfl
  steps u u' hleft hright _ m := by
    simp only [Machine.steps, Machine.step, hleft.chunks _ _ hi, hright.chunks _ _ hi']

end CodeAlike

namespace Compile

/-- The same template compiled with other options. -/
def Context.withOptions (c : Context) (options : CompileOptions) : Context :=
  { c with options := options }

/-- Whether the codes of two fragments are alike. -/
def FragmentsAlike (schema : Schema) (f : Fragment) (t : Tables) (f' : Fragment) (t' : Tables) : Prop :=
  CodeAlike schema t t' f.instrs f'.instrs

variable {c : Context} {options : CompileOptions} {schema : Schema} {pos : Pos} {s s' s₁ : State}
  {f f' g body body' : Fragment} {code' : List Instr} {t' : Tables}

/-! ### Folding -/

/-- Pushing values only adds constants, which may differ. -/
theorem ensures_pushValues_alike (values : List Value) :
    Ensures (pushValues c pos f values) s fun _ s' => s.Alike s' := by
  induction values generalizing f s with
  | nil => exact ensures_pure (.refl s)
  | cons v values ih =>
    have hadd : Ensures (addValue c pos v) s fun _ s' => s.Alike s' :=
      ensures_addEntry fun i t hadd => ⟨.of_addValue hadd, rfl, rfl⟩
    have hpush : Ensures (pushValue c pos f v) s fun _ s' => s.Alike s' :=
      .bind hadd fun index s₁ halike => ensures_pure halike
    exact .bind hpush fun g s₁ halike => ih.mono fun g' s₂ hrest => halike.trans hrest

/-- Folding changes nothing but the constants in the tables. -/
theorem ensures_fold_alike (body : Fragment) :
    Ensures (fold c pos body) s fun _ s' => s.Alike s' := by
  apply ensures_get_bind
  simp only
  split
  · split
    · exact ensures_pushValues_alike _
    · exact ensures_pure (.refl s)
  · exact ensures_pure (.refl s)

/-- Folding gives straight-line code. -/
theorem Folded.straight (h : Folded schema s body g s₁) : Straight g.instrs := by
  obtain ⟨-, -, values, indices, -, hcode, -⟩ := h
  rw [hcode]
  intro i hi
  obtain ⟨index, -, rfl⟩ := List.mem_map.mp hi
  rfl

/-- Neither what has been folded nor the code that it has been folded to has a field access. -/
theorem Folded.any_isField (h : Folded schema s body g s₁) :
    g.instrs.any Instr.isField = false ∧ body.instrs.any Instr.isField = false := by
  obtain ⟨-, hconstant, values, indices, -, hcode, -⟩ := h
  rw [hcode, List.any_eq_false, List.any_eq_false]
  constructor
  · intro i hi
    obtain ⟨index, -, rfl⟩ := List.mem_map.mp hi
    simp [Instr.isField]
  · intro i hi
    have hi := hconstant i hi
    cases i with
    | field argc name => cases hi
    | _ => exact Bool.false_ne_true

/-- Code that pushes known values leaves as many as it pushes more than it pops. -/
theorem length_of_pushes {t : Tables} {code : List Instr} {values : List Value}
    (hcode : Straight code) (hfields : code.any Instr.isField = false)
    (hpushes : Pushes schema t code values) : values.length + popped code = pushed code := by
  have hsteps := Machine.length_stack_steps hcode hfields (hpushes (.fresh .unlimited .none))
  simpa [Machine.fresh, Stacks.empty] using hsteps

/-- Folded code is alike to whatever the code it stands for is alike to. -/
theorem Folded.alike (h : Folded schema s body g s₁)
    (hbody : CodeAlike schema s.tables t' body.instrs code') :
    CodeAlike schema s₁.tables t' g.instrs code' where
  left := h.straight
  right := hbody.right
  fields := by rw [← hbody.fields, h.any_isField.1, h.any_isField.2]
  count := by
    obtain ⟨values, hpushes, hfolded⟩ := h.pushes (.refl s₁.tables)
    have hcount := length_of_pushes hbody.left h.any_isField.2 hpushes
    have hcount' := length_of_pushes h.straight h.any_isField.1 hfolded
    have := hbody.count
    omega
  steps u u' hleft hright halike m := by
    obtain ⟨values, hpushes, hfolded⟩ := h.pushes hleft
    rw [hfolded m, ← hpushes m, hbody.steps u u' (h.grows.extends_.trans hleft) hright halike m]

/-- Code that is alike another one is still alike it when it has been folded. -/
theorem alike_of_fold (hfold : fold c pos body s = .ok (g, s₁))
    (hbody : CodeAlike c.schema s.tables t' body.instrs code') :
    CodeAlike c.schema s₁.tables t' g.instrs code' ∧ s.tables.Extends s₁.tables ∧ s.Alike s₁ := by
  have halike := (ensures_fold_alike body).of_ok hfold
  rcases (ensures_fold body).of_ok hfold with ⟨rfl, rfl⟩ | hfolded
  · exact ⟨hbody, .refl _, halike⟩
  · exact ⟨hfolded.alike hbody, hfolded.grows.extends_, halike⟩

/-- Codes stay alike whether or not any of them is folded. -/
theorem lockstep_fold (hs : s.Alike s') (hbody : FragmentsAlike c.schema body s.tables body' s'.tables) :
    Lockstep (fold c pos body) (fold (c.withOptions options) pos body') s s'
      (FragmentsAlike c.schema) := by
  intro g t g' t' hrun hrun'
  obtain ⟨hleft, hextends, halike⟩ := alike_of_fold hrun hbody
  obtain ⟨hright, hextends', halike'⟩ := alike_of_fold hrun' hleft.symm
  exact ⟨⟨hextends, hextends', (halike.symm.trans hs).trans halike'⟩, hright.symm⟩

/-! ### Operands -/

/-- Empty fragments are alike. -/
theorem FragmentsAlike.empty (schema : Schema) (t t' : Tables) :
    FragmentsAlike schema .empty t .empty t' := CodeAlike.nil

/-- Fragments that are alike stay so when tables grow. -/
theorem FragmentsAlike.mono {t t' u u' : Tables} (hf : FragmentsAlike schema f t f' t')
    (hleft : t.Extends u) (hright : t'.Extends u') : FragmentsAlike schema f u f' u' :=
  CodeAlike.mono hf hleft hright

/-- Fragments that are alike stay so with the same instruction behind both, if it refers to no constant and
to no text. -/
theorem FragmentsAlike.push {t t' : Tables} (hf : FragmentsAlike schema f t f' t') {i : Instr}
    (hi : i.isStraight) (hval : ∀ index, i ≠ .val index) (hwb : ∀ index, i ≠ .wb index) :
    FragmentsAlike schema (f.push i) t (f'.push i) t' := by
  unfold FragmentsAlike
  rw [Fragment.instrs_push, Fragment.instrs_push]
  exact CodeAlike.append hf (.singleton hi hval hwb)

/-- A value is pushed alike by both compilations. -/
theorem lockstep_pushValue (hs : s.Alike s') (hf : FragmentsAlike schema f s.tables f' s'.tables)
    (v : Value) :
    Lockstep (pushValue c pos f v) (pushValue (c.withOptions options) pos f' v) s s'
      (FragmentsAlike schema) := by
  apply (lockstep_addValue hs v).bind
  intro i t i' t' _ _ hadvance hentry
  apply lockstep_pure hadvance.alike
  unfold FragmentsAlike
  rw [Fragment.instrs_push, Fragment.instrs_push]
  exact (hf.mono hadvance.left hadvance.right).append (.val hentry.1 hentry.2)

/-- Bytes are written alike by both compilations. -/
theorem lockstep_pushBytes (hs : s.Alike s') (hf : FragmentsAlike schema f s.tables f' s'.tables)
    (bytes : ByteArray) :
    Lockstep (pushBytes c pos f bytes) (pushBytes (c.withOptions options) pos f' bytes) s s'
      (FragmentsAlike schema) := by
  apply (lockstep_addChunk hs bytes).bind
  intro i t i' t' _ _ hadvance hentry
  apply lockstep_pure hadvance.alike
  unfold FragmentsAlike
  rw [Fragment.instrs_push, Fragment.instrs_push]
  exact (hf.mono hadvance.left hadvance.right).append (.wb hentry.1 hentry.2)

/-- A path of fields is looked up alike by both compilations. -/
theorem lockstep_fields (hs : s.Alike s') (hf : FragmentsAlike schema f s.tables f' s'.tables)
    (argc : Nat) (path : List String) :
    Lockstep (fields c pos argc f path) (fields (c.withOptions options) pos argc f' path) s s'
      (FragmentsAlike schema) := by
  induction path generalizing f f' s s' with
  | nil => exact lockstep_pure hs hf
  | cons name rest ih =>
    apply (lockstep_intern hs name).bind
    intro index t index' t' _ _ hadvance hindex
    subst hindex
    exact ih hadvance.alike ((hf.mono hadvance.left hadvance.right).push rfl (by simp) (by simp))

/-- A call becomes the same function, or is left out, on both sides. -/
theorem lockstep_identifier (hs : s.Alike s') (hf : FragmentsAlike schema f s.tables f' s'.tables)
    (argc : Nat) (name : String)
    (hdecide : Operand.decisions c argc f s (.ident pos name) =
      Operand.decisions (c.withOptions options) argc f' s' (.ident pos name)) :
    Lockstep (identifier c pos argc f name) (identifier (c.withOptions options) pos argc f' name) s s'
      (FragmentsAlike schema) := by
  have hset : (c.withOptions options).set = c.set := rfl
  have hregistry : (c.withOptions options).registry = c.registry := rfl
  unfold Operand.decisions at hdecide
  unfold identifier
  rw [hset] at hdecide ⊢
  cases hhook : assetBytes? c.set name with
  | some bytes =>
    have hnoPrint {g g' : Fragment} {t t' : State} (ht : t.Alike t')
        (hg : FragmentsAlike schema g t.tables g' t'.tables) :
        Lockstep (do modify ({ · with noPrint := true }); return g : M Fragment)
          (do modify ({ · with noPrint := true }); return g' : M Fragment) t t'
          (FragmentsAlike schema) :=
      lockstep_modify_bind rfl rfl (lockstep_pure ⟨ht.tables, rfl, ht.declared⟩ hg)
    simp only
    split
    · exact hnoPrint hs hf
    · exact (lockstep_pushBytes hs hf bytes).bind fun g t g' t' _ _ hadvance hg =>
        hnoPrint hadvance.alike hg
  | none =>
    rw [hhook] at hdecide
    have hresolve := Decisions.call.inj hdecide
    apply lockstep_get_bind
    simp only [← hresolve, hregistry]
    cases resolve c.options s.noPrint (knownOperand s.tables argc f) name with
    | none => exact lockstep_pure hs hf
    | some name' =>
      simp only
      cases c.registry.get? name' with
      | none => exact lockstep_fail
      | some function =>
        apply (lockstep_addFunc hs function).bind
        intro index t index' t' _ _ hadvance hindex
        subst hindex
        exact lockstep_pure hadvance.alike
          ((hf.mono hadvance.left hadvance.right).push rfl (by simp) (by simp))

/-- Variables are bound under the same names. -/
theorem lockstep_bindAll (hs : s.Alike s') (hf : FragmentsAlike schema f s.tables f' s'.tables)
    (assign : Bool) (decl : List Variable) :
    Lockstep (bindAll c assign f decl) (bindAll (c.withOptions options) assign f' decl) s s'
      (FragmentsAlike schema) := by
  induction decl generalizing f f' s s' with
  | nil => exact lockstep_pure hs hf
  | cons v rest ih =>
    apply (lockstep_intern hs v.name).bind
    intro name t name' t' _ _ hadvance hname
    subst hname
    have hset : FragmentsAlike schema (f.push (.setVar name assign)) t.tables
        (f'.push (.setVar name assign)) t'.tables :=
      (hf.mono hadvance.left hadvance.right).push rfl (by simp) (by simp)
    cases assign with
    | true => exact ih hadvance.alike hset
    | false =>
      have hdeclared := hadvance.alike.declared
      exact lockstep_modify_bind rfl rfl
        (ih ⟨hadvance.alike.tables, hadvance.alike.noPrint, by simp [hdeclared]⟩ hset)

/-- The value of the commands of a pipeline is folded and bound. -/
theorem lockstep_value (hs : s.Alike s') (hbody : FragmentsAlike c.schema body s.tables body' s'.tables)
    (binds assign : Bool) (decl : List Variable) :
    Lockstep
      (do
        let body ← fold c pos body
        let body ← if binds then bindAll c assign body decl else pure body
        return body.mark pos)
      (do
        let body ← fold (c.withOptions options) pos body'
        let body ← if binds then bindAll (c.withOptions options) assign body decl else pure body
        return body.mark pos) s s' (FragmentsAlike c.schema) := by
  apply (lockstep_fold hs hbody).bind
  intro g t g' t' _ _ hadvance hg
  cases binds with
  | false => exact lockstep_pure hadvance.alike hg
  | true =>
    exact (lockstep_bindAll hadvance.alike hg assign decl).bind fun _ _ _ _ _ _ hadvance hbound =>
      lockstep_pure hadvance.alike hbound

/-- The second half of a decision is made after the first step on both sides. -/
theorem Decisions.both_after {α : Type} {first first' : Decisions} {x x' : M α}
    {next next' : α → State → Decisions} {a a' : α} {t t' : State}
    (hdecide : Decisions.both first (.after x s next) = .both first' (.after x' s' next'))
    (hx : x s = .ok (a, t)) (hx' : x' s' = .ok (a', t')) : next a t = next' a' t' := by
  have hnext := (Decisions.both.inj hdecide).2
  rwa [after_eq hx, after_eq hx'] at hnext

/-- A field path is looked up on values that have been pushed in lockstep. -/
theorem lockstep_path (hs : s.Alike s') (hf : FragmentsAlike schema f s.tables f' s'.tables)
    (argc : Nat) (path : List String) :
    Lockstep (do return (← fields c pos argc f path).mark pos)
      (do return (← fields (c.withOptions options) pos argc f' path).mark pos) s s'
      (FragmentsAlike schema) :=
  (lockstep_fields hs hf argc path).bind fun _ _ _ _ _ _ hadvance hg => lockstep_pure hadvance.alike hg

mutual

/-- The code of an operand is alike on both sides if the same has been decided. -/
theorem lockstep_operand (argc : Nat) : ∀ (a : Operand) (f f' : Fragment) (s s' : State), s.Alike s' →
    FragmentsAlike c.schema f s.tables f' s'.tables →
    a.decisions c argc f s = a.decisions (c.withOptions options) argc f' s' →
    Lockstep (operand c argc f a) (operand (c.withOptions options) argc f' a) s s'
      (FragmentsAlike c.schema)
  | .bool pos b, f, f', s, s', hs, hf, _ =>
    (lockstep_pushValue hs hf (.bool b)).bind fun _ _ _ _ _ _ hadvance hg =>
      lockstep_pure hadvance.alike hg
  | .number n, f, f', s, s', hs, hf, _ => by
    unfold operand
    cases numberValue? n with
    | some v =>
      exact (lockstep_pushValue hs hf v).bind fun _ _ _ _ _ _ hadvance hg =>
        lockstep_pure hadvance.alike hg
    | none => exact lockstep_fail
  | .string pos str, f, f', s, s', hs, hf, _ => by
    apply (lockstep_intern hs str).bind
    intro index t index' t' _ _ hadvance hindex
    subst hindex
    exact lockstep_pure hadvance.alike
      ((hf.mono hadvance.left hadvance.right).push rfl (by simp) (by simp))
  | .nil pos, f, f', s, s', hs, hf, _ =>
    (lockstep_pushValue hs hf .nil).bind fun _ _ _ _ _ _ hadvance hg =>
      lockstep_pure hadvance.alike hg
  | .dot pos, f, f', s, s', hs, hf, _ => lockstep_pure hs (hf.push rfl (by simp) (by simp))
  | .field pos path, f, f', s, s', hs, hf, _ =>
    lockstep_path hs (hf.push rfl (by simp) (by simp)) argc path
  | .chain pos inner path, f, f', s, s', hs, hf, hdecide =>
    (lockstep_operand 0 inner f f' s s' hs hf hdecide).bind fun _ _ _ _ _ _ hadvance hg =>
      lockstep_path hadvance.alike hg argc path
  | .var v, f, f', s, s', hs, hf, _ => by
    apply (lockstep_intern hs v.name).bind
    intro name t name' t' _ _ hadvance hname
    subst hname
    exact lockstep_path hadvance.alike
      ((hf.mono hadvance.left hadvance.right).push rfl (by simp) (by simp)) argc v.fields
  | .ident pos name, f, f', s, s', hs, hf, hdecide =>
    (lockstep_identifier hs hf argc name hdecide).bind fun _ _ _ _ _ _ hadvance hg =>
      lockstep_pure hadvance.alike hg
  | .paren p, f, f', s, s', hs, hf, hdecide => by
    apply (lockstep_pipeline true p s s' hs hdecide).bind
    intro g t g' t' _ _ hadvance hg
    have happend : FragmentsAlike c.schema (f.append g) t.tables (f'.append g') t'.tables := by
      unfold FragmentsAlike
      rw [Fragment.instrs_append, Fragment.instrs_append]
      exact CodeAlike.append (hf.mono hadvance.left hadvance.right) hg
    cases p.decl.getLast? with
    | some v =>
      apply (lockstep_intern hadvance.alike v.name).bind
      intro name u name' u' _ _ hadvance' hname
      subst hname
      exact lockstep_pure hadvance'.alike
        ((happend.mono hadvance'.left hadvance'.right).push rfl (by simp) (by simp))
    | none => exact lockstep_pure hadvance.alike happend

/-- The code of operands is alike on both sides if the same has been decided. -/
theorem lockstep_operands (argc : Nat) : ∀ (args : List Operand) (f f' : Fragment) (s s' : State),
    s.Alike s' → FragmentsAlike c.schema f s.tables f' s'.tables →
    Operand.allDecisions c argc f s args =
      Operand.allDecisions (c.withOptions options) argc f' s' args →
    Lockstep (operands c argc f args) (operands (c.withOptions options) argc f' args) s s'
      (FragmentsAlike c.schema)
  | [], f, f', s, s', hs, hf, _ => lockstep_pure hs hf
  | a :: rest, f, f', s, s', hs, hf, hdecide => by
    have hfirst := (Decisions.both.inj hdecide).1
    apply (lockstep_operands 0 rest f f' s s' hs hf hfirst).bind
    intro g t g' t' hx hx' hadvance hg
    exact lockstep_operand argc a g g' t t' hadvance.alike hg (Decisions.both_after hdecide hx hx')

/-- The code of a command is alike on both sides if the same has been decided. -/
theorem lockstep_command (chained : Bool) : ∀ (cmd : Command) (f f' : Fragment) (s s' : State),
    s.Alike s' → FragmentsAlike c.schema f s.tables f' s'.tables →
    cmd.decisions c chained f s = cmd.decisions (c.withOptions options) chained f' s' →
    Lockstep (command c chained f cmd) (command (c.withOptions options) chained f' cmd) s s'
      (FragmentsAlike c.schema)
  | .mk pos args, f, f', s, s', hs, hf, hdecide => by
    unfold command
    simp only
    split
    · exact (lockstep_operands _ args f f' s s' hs hf hdecide).bind fun _ _ _ _ _ _ hadvance hg =>
        lockstep_pure hadvance.alike hg
    · exact lockstep_fail

/-- The code of commands is alike on both sides if the same has been decided. -/
theorem lockstep_commands (chained : Bool) : ∀ (cmds : List Command) (f f' : Fragment) (s s' : State),
    s.Alike s' → FragmentsAlike c.schema f s.tables f' s'.tables →
    Command.allDecisions c chained f s cmds =
      Command.allDecisions (c.withOptions options) chained f' s' cmds →
    Lockstep (commands c chained f cmds) (commands (c.withOptions options) chained f' cmds) s s'
      (FragmentsAlike c.schema)
  | [], f, f', s, s', hs, hf, _ => lockstep_pure hs hf
  | cmd :: rest, f, f', s, s', hs, hf, hdecide => by
    have hfirst := (Decisions.both.inj hdecide).1
    refine (lockstep_command chained cmd f f' s s' hs hf hfirst).bind
      fun g t g' t' hx hx' hadvance hg => ?_
    exact lockstep_commands true rest g g' t t' hadvance.alike hg (Decisions.both_after hdecide hx hx')

/-- The code of a pipeline is alike on both sides if the same has been decided, whether or not any of
it is folded. -/
theorem lockstep_pipeline (binds : Bool) : ∀ (pipe : Pipeline) (s s' : State), s.Alike s' →
    pipe.decisions c s = pipe.decisions (c.withOptions options) s' →
    Lockstep (pipeline c binds pipe) (pipeline (c.withOptions options) binds pipe) s s'
      (FragmentsAlike c.schema)
  | .mk _ assign decl cmds, s, s', hs, hdecide =>
    (lockstep_commands false cmds .empty .empty s s' hs (.empty _ _ _) hdecide).bind
      fun _ _ _ _ _ _ hadvance hbody => lockstep_value hadvance.alike hbody binds assign decl

end

end Compile

end Stencil
