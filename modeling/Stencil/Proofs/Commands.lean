import Stencil.Proofs.Arguments
import Stencil.Proofs.Operands

/-!
# The code of commands

The parts of the code of a command. The operands come first, from the last to the first, each with the
code that it is compiled to; then comes the head, which calls what it names with as many arguments as
there are operands and, behind another command, with one more.
-/

namespace Stencil

namespace Compile

variable {c : Context} {pos : Pos} {s s' : State} {f f' body : Fragment} {code receiver : List Instr} {codes : List (List Instr)} {call : Instr}
  {before after : List Command} {head : Operand} {args : List Operand} {n argc : Nat}

/-! ### Parts -/

/-- Whether operands that get no arguments have been compiled behind some code, the last one first, and
which code each of them has added. -/
inductive CompilesAll (c : Context) (f : Fragment) (s : State) :
    List Operand → List (List Instr) → Fragment → State → Prop where
  | nil : CompilesAll c f s [] [] f s
  | cons {a : Operand} {args : List Operand} {code : List Instr} {codes : List (List Instr)}
      {g f' : Fragment} {s₁ s' : State} (hargs : CompilesAll c f s args codes g s₁)
      (ha : operand c 0 g a s₁ = .ok (f', s')) (hcode : f'.instrs = g.instrs ++ code) :
      CompilesAll c f s (a :: args) (code :: codes) f' s'

namespace CompilesAll

/-- Each operand has a code. -/
theorem length_eq (h : CompilesAll c f s args codes f' s') : codes.length = args.length := by
  induction h with
  | nil => rfl
  | cons _ _ _ ih => rw [List.length_cons, List.length_cons, ih]

/-- The code of the last operand comes first. -/
theorem instrs_eq (h : CompilesAll c f s args codes f' s') :
    f'.instrs = f.instrs ++ codes.reverse.flatten := by
  induction h with
  | nil => simp
  | cons _ _ hcode ih =>
    rw [hcode, ih]
    simp

/-- Compiling operands determines the codes. -/
theorem unique (h : CompilesAll c f s args codes f' s') {codes' : List (List Instr)} {g : Fragment}
    {s₁ : State} (h' : CompilesAll c f s args codes' g s₁) : codes' = codes ∧ g = f' ∧ s₁ = s' := by
  induction h generalizing codes' g s₁ with
  | nil =>
    cases h'
    exact ⟨rfl, rfl, rfl⟩
  | cons _ ha hcode ih =>
    cases h' with
    | cons hargs' ha' hcode' =>
      obtain ⟨rfl, rfl, rfl⟩ := ih hargs'
      obtain ⟨rfl, rfl⟩ := Prod.mk.inj (Except.ok.inj (ha'.symm.trans ha))
      obtain rfl := List.append_cancel_left (hcode'.symm.trans hcode)
      exact ⟨rfl, rfl, rfl⟩

end CompilesAll

/-- The code of a command with at least one operand, behind that of the commands in front of it, all
compiled from the state `s` on. -/
structure CommandCode (c : Context) (s : State) (before : List Command) (head : Operand)
    (args : List Operand) where
  /-- What the commands in front are compiled to. -/
  leading : Fragment
  reached : State
  operands : List (List Instr)
  /-- What they and the operands are compiled to. -/
  loaded : Fragment
  ready : State
  headCode : List Instr
  result : Fragment
  after : State
  compiled_before : commands c false .empty before s = .ok (leading, reached)
  compiled_operands : CompilesAll c leading reached args operands loaded ready
  compiled_head : operand c (args.length + (!before.isEmpty).toNat) loaded head ready = .ok (result, after)
  instrs_result : result.instrs = loaded.instrs ++ headCode

namespace CommandCode

/-- The code of the commands in front of the command. -/
def earlier (K : CommandCode c s before head args) : List Instr := K.leading.instrs

/-- The code up to the end of the command. -/
def instrs (K : CommandCode c s before head args) : List Instr :=
  K.earlier ++ (K.operands.reverse.flatten ++ K.headCode)

/-- The number of values that the command gets from the one in front of it. -/
def piped (_ : CommandCode c s before head args) : Nat := (!before.isEmpty).toNat

/-- A command is compiled to the code of its parts. -/
theorem instrs_eq (K : CommandCode c s before head args) : K.result.instrs = K.instrs := by
  rw [K.instrs_result, K.compiled_operands.instrs_eq, instrs, earlier, List.append_assoc]

/-- Compiling a command determines its code. -/
theorem unique (K L : CommandCode c s before head args) : K = L := by
  obtain ⟨leading, reached, operands, loaded, ready, headCode, result, after, hbefore, hoperands, hhead,
    hresult⟩ := K
  obtain ⟨leading', reached', operands', loaded', ready', headCode', result', after', hbefore', hoperands',
    hhead', hresult'⟩ := L
  obtain ⟨rfl, rfl⟩ := Prod.mk.inj (Except.ok.inj (hbefore.symm.trans hbefore'))
  obtain ⟨rfl, rfl, rfl⟩ := hoperands'.unique hoperands
  obtain ⟨rfl, rfl⟩ := Prod.mk.inj (Except.ok.inj (hhead.symm.trans hhead'))
  obtain rfl := List.append_cancel_left (hresult.symm.trans hresult')
  rfl

end CommandCode

/-- Commands are compiled one after the other. -/
theorem commands_append_eq_ok {chained : Bool} {rest : List Command}
    (h : commands c chained f (before ++ rest) s = .ok (f', s')) :
    ∃ g s₁, commands c chained f before s = .ok (g, s₁) ∧
      commands c (chained || !before.isEmpty) g rest s₁ = .ok (f', s') := by
  induction before generalizing chained f s with
  | nil => exact ⟨f, s, rfl, by simpa using h⟩
  | cons cmd before ih =>
    obtain ⟨g, s₁, hcmd, hrest⟩ := bind_eq_ok.mp h
    obtain ⟨g', s₂, hbefore, hrest⟩ := ih hrest
    refine ⟨g', s₂, bind_eq_ok.mpr ⟨g, s₁, hcmd, hbefore⟩, ?_⟩
    simpa using hrest

/-- Operands that are not called are compiled one by one, the last one first. -/
theorem operands_eq_ok (h : operands c 0 f args s = .ok (f', s')) :
    ∃ codes, CompilesAll c f s args codes f' s' := by
  induction args generalizing f' s' with
  | nil =>
    cases h
    exact ⟨[], .nil⟩
  | cons a rest ih =>
    obtain ⟨g, s₁, hrest, ha⟩ := bind_eq_ok.mp h
    obtain ⟨codes, hcodes⟩ := ih hrest
    obtain ⟨code, hcode, -, -⟩ := yields_operand 0 a g s₁ f' s' ha
    exact ⟨code :: codes, .cons hcodes ha hcode⟩

/-- The code of a command is a piece of that of the commands it is one of. -/
theorem exists_commandCode
    (h : commands c false .empty (before ++ .mk pos (head :: args) :: after) s = .ok (body, s')) :
    ∃ K : CommandCode c s before head args, K.instrs <+: body.instrs := by
  obtain ⟨g, s₁, hbefore, hrest⟩ := commands_append_eq_ok h
  obtain ⟨g₁, s₂, hcmd, hafter⟩ := bind_eq_ok.mp hrest
  obtain ⟨later, hlater, -, -⟩ := yields_commands true after g₁ s₂ body s' hafter
  unfold command at hcmd
  simp only [List.length_cons, Nat.add_sub_cancel, Bool.false_or] at hcmd
  split at hcmd
  · obtain ⟨g₂, s₃, hall, hmark⟩ := bind_eq_ok.mp hcmd
    cases hmark
    obtain ⟨g₃, s₄, hargs, hhead⟩ := bind_eq_ok.mp hall
    obtain ⟨codes, hcodes⟩ := operands_eq_ok hargs
    obtain ⟨code, hcode, -, -⟩ := yields_operand _ head g₃ s₄ g₂ s₂ hhead
    let K : CommandCode c s before head args :=
      ⟨g, s₁, codes, g₃, s₄, code, g₂, s₂, hbefore, hcodes, hhead, hcode⟩
    refine ⟨K, later, ?_⟩
    rw [← K.instrs_eq, hlater, Fragment.instrs_mark]
  · cases hcmd

/-- So is every code of the command that is compiled from the same state. -/
theorem CommandCode.isPrefix (K : CommandCode c s before head args)
    (h : commands c false .empty (before ++ .mk pos (head :: args) :: after) s = .ok (body, s')) :
    K.instrs <+: body.instrs := by
  obtain ⟨L, hL⟩ := exists_commandCode h
  exact K.unique L ▸ hL

/-! ### Heads -/

/-- The code of field accesses, the last of which may be a call. -/
def fieldCode (argc : Nat) : List Nat → List Instr
  | [] => []
  | index :: rest => .field (if rest.isEmpty then argc else 0) index :: fieldCode argc rest

/-- The last field of a path gets the arguments. -/
theorem fieldCode_concat (argc : Nat) (indices : List Nat) (last : Nat) :
    fieldCode argc (indices ++ [last]) = fieldCode 0 indices ++ [.field argc last] := by
  induction indices with
  | nil => rfl
  | cons index indices ih => simp [fieldCode, ih]

/-- A path of fields is compiled to one access for each field. -/
theorem fields_eq_ok {path : List String} (h : fields c pos argc f path s = .ok (f', s')) :
    ∃ indices : List Nat, indices.length = path.length ∧
      f'.instrs = f.instrs ++ fieldCode argc indices := by
  induction path generalizing f s with
  | nil =>
    cases h
    exact ⟨[], rfl, by simp [fieldCode]⟩
  | cons name rest ih =>
    obtain ⟨index, s₁, -, hrest⟩ := bind_eq_ok.mp h
    obtain ⟨indices, hlength, hcode⟩ := ih hrest
    have hempty : indices.isEmpty = rest.isEmpty := by
      cases indices <;> cases rest <;> first | rfl | cases hlength
    refine ⟨index :: indices, by simp [hlength], ?_⟩
    rw [hcode, Fragment.instrs_push, fieldCode, hempty, List.append_assoc]
    rfl

/-- Fields of a value leave one value in its place. -/
theorem replaces_fields (h : Machine.Replaces n code) (indices : List Nat) :
    Machine.Replaces n (code ++ fieldCode 0 indices) := by
  induction indices generalizing code with
  | nil => simpa [fieldCode] using h
  | cons index indices ih =>
    have hfirst := h.append (Machine.replaces_field index)
    have hall := ih hfirst
    simpa [fieldCode] using hall

/-- Only asset hooks have bytes of their own. -/
theorem isHook_of_assetBytes? {set : TemplateSet} {name : String} {bytes : ByteArray}
    (h : assetBytes? set name = some bytes) : isHook name := by
  cases hname : isHook name with
  | true => rfl
  | false =>
    rw [assetBytes?_eq_none hname] at h
    cases h

/-- A name is compiled to at most one instruction: a hook to one that writes its bytes, an escaper
possibly to none, and anything else to a call. -/
theorem yields_identifier_code (argc : Nat) (name : String) :
    Yields (identifier c pos argc f name) s fun f' _ => ∃ code, f'.instrs = f.instrs ++ code ∧
      ((isHook name ∧ ∀ i ∈ code, i.isCall = false) ∨ (isEscaper name ∧ code = []) ∨
        ∃ index, code = [.func argc index]) := by
  cases hhook : assetBytes? c.set name with
  | some bytes =>
    have hname := isHook_of_assetBytes? hhook
    unfold identifier
    rw [hhook]
    simp only
    split
    · intro g s' hrun
      cases hrun
      exact ⟨[], by simp, .inl ⟨hname, fun _ hi => nomatch hi⟩⟩
    · refine .bind (ensures_pushBytes f bytes).yields fun g s₁ hg => ?_
      obtain ⟨index, rfl, -⟩ := hg
      refine yields_modify_bind (yields_pure ⟨[.wb index], Fragment.instrs_push f _, .inl ⟨hname, ?_⟩⟩)
      exact List.forall_mem_singleton.mpr rfl
  | none =>
    unfold identifier
    rw [hhook]
    apply yields_get_bind
    cases hresolve : resolve c.options s.noPrint (knownOperand s.tables argc f) name with
    | none =>
      have hescaper : isEscaper name := by
        unfold resolve at hresolve
        split at hresolve
        · assumption
        · cases hresolve
      exact yields_pure ⟨[], by simp, .inr (.inl ⟨hescaper, rfl⟩)⟩
    | some name' =>
      simp only
      split
      · exact yields_fail
      · next function _ =>
        exact .bind (ensures_addFunc function).yields fun index s₁ _ =>
          yields_pure ⟨[.func argc index], Fragment.instrs_push f _, .inr (.inr ⟨index, rfl⟩)⟩

end Compile

/-- Whether an operand stands for something that is called with arguments, if there are any. -/
def Operand.isCallable : Operand → Bool
  | .ident .. => true
  | .field _ path | .chain _ _ path => !path.isEmpty
  | .var v => !v.fields.isEmpty
  | _ => false

namespace Compile

/-- Fields that something is called through end with the call. -/
theorem concat_eq_fieldCode {indices : List Nat} (hindices : indices ≠ [])
    (hcode : receiver ++ [call] = code ++ fieldCode argc indices) :
    ∃ init last, receiver = code ++ fieldCode 0 init ∧ call = .field argc last := by
  obtain ⟨init, last, rfl⟩ := (List.eq_nil_or_concat indices).resolve_left hindices
  rw [List.concat_eq_append, fieldCode_concat, ← List.append_assoc] at hcode
  obtain ⟨hreceiver, hcall⟩ := List.append_inj' hcode rfl
  exact ⟨init, last, hreceiver, List.singleton_inj.mp hcall⟩

end Compile
end Stencil
