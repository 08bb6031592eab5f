import Stencil.Builtin
import Stencil.Call

/-!
# What callees get

A call checks the number of its arguments, then coerces each of them to the declared type of its
position, and then enters the callee once, with the fixed arguments and with the tail. So callees may
rely on the declared types: what they get is of the type of its position, or nil where a stream or a
function has been asked for with nil. The built-in functions do the same at both of their entry points.
-/

namespace Stencil

namespace Signature

variable {sig : Signature} {given i : Nat}

/-- Whether a number of arguments is right: the declared one, or not below it if there is a tail. -/
def Admits (sig : Signature) (given : Nat) : Prop :=
  if sig.variadic.isSome then sig.params.length ≤ given else given = sig.params.length

instance (sig : Signature) (given : Nat) : Decidable (sig.Admits given) :=
  inferInstanceAs (Decidable
    (if sig.variadic.isSome then sig.params.length ≤ given else given = sig.params.length))

/-- No argument that is declared may be missing. -/
theorem Admits.length_le (h : sig.Admits given) : sig.params.length ≤ given := by
  unfold Admits at h
  split at h
  · exact h
  · exact Nat.le_of_eq h.symm

/-- If the number of arguments is right, each of them has a declared type. -/
theorem Admits.exists_param (h : sig.Admits given) (hi : i < given) : ∃ ty, sig.param? i = some ty := by
  unfold Admits at h
  unfold param?
  by_cases hfixed : i < sig.params.length
  · exact ⟨sig.params[i], by rw [List.getElem?_eq_getElem hfixed, Option.some_or]⟩
  · rw [List.getElem?_eq_none (Nat.le_of_not_lt hfixed), Option.none_or]
    split at h
    · next htail => exact Option.isSome_iff_exists.mp htail
    · omega

end Signature

namespace Call

variable {name : String} {sig : Signature} {ty : ParamType} {args passed fixed tail : List Value}
  {v w : Value} {index i : Nat} {r : Except RuntimeError Value}

/-! ### Coercion -/

/-- What an argument is coerced to. Nil is replaced, what is accepted is passed as it is, and for
everything else one pointer or box is followed or the address of a record is taken. -/
inductive Coerces (ty : ParamType) : Value → Value → Prop where
  | zero {v : Value} (hnil : v = .nil ∨ v = .nilBox) : Coerces ty v ty.zero
  | same {v : Value} (hnil : v ≠ .nil ∧ v ≠ .nilBox) (hv : ty.accepts v = true) : Coerces ty v v
  | layer {v w : Value} (hv : ty.accepts v = false) (hlayer : v.deref? = some w)
      (hw : ty.accepts w = true) : Coerces ty v w
  | address {v : Value} (hv : ty.accepts v = false) (haddress : v.isAddressable = true)
      (hpointer : ty.accepts (.ptr v) = true) : Coerces ty v (.ptr v)

/-- An addressable record has no layer that could be followed. -/
theorem deref?_of_isAddressable (h : v.isAddressable = true) : v.deref? = none := by
  cases v with
  | record => rfl
  | _ => cases h

/-- Nil is coerced to the zero value of the type. -/
theorem coerce?_of_nil (hnil : v = .nil ∨ v = .nilBox) : coerce? ty v = some ty.zero := by
  rcases hnil with rfl | rfl <;> rfl

/-- What is not nil is passed as it is if it is accepted, and otherwise behind one layer or by its address. -/
theorem coerce?_of_not_nil (hnil : v ≠ .nil ∧ v ≠ .nilBox) :
    coerce? ty v =
      if ty.accepts v then some v
      else (v.deref?.filter ty.accepts).or
        (if v.isAddressable && ty.accepts (.ptr v) then some (.ptr v) else none) := by
  unfold coerce?
  split
  · exact absurd rfl hnil.1
  · exact absurd rfl hnil.2
  · cases v.deref?.filter ty.accepts <;> rfl

/-- Coercing an argument does what the rules tell. -/
theorem coerce?_eq_some_iff : coerce? ty v = some w ↔ Coerces ty v w := by
  by_cases hnil : v = .nil ∨ v = .nilBox
  · rw [coerce?_of_nil hnil]
    refine ⟨fun h => Option.some.inj h ▸ .zero hnil, fun h => ?_⟩
    cases h with
    | zero => rfl
    | same hnot => exact (hnil.elim hnot.1 hnot.2).elim
    | layer _ hlayer => rcases hnil with rfl | rfl <;> cases hlayer
    | address _ haddress => rcases hnil with rfl | rfl <;> cases haddress
  · have hnot : v ≠ .nil ∧ v ≠ .nilBox := not_or.mp hnil
    rw [coerce?_of_not_nil hnot]
    cases hv : ty.accepts v with
    | true =>
      refine ⟨fun h => Option.some.inj h ▸ .same hnot hv, fun h => ?_⟩
      cases h with
      | zero hzero => exact absurd hzero hnil
      | same => rfl
      | layer hfalse | address hfalse => rw [hv] at hfalse; cases hfalse
    | false =>
      rw [if_neg nofun, Option.or_eq_some_iff]
      constructor
      · rintro (hlayer | ⟨-, haddress⟩)
        · obtain ⟨hlayer, hw⟩ := Option.filter_eq_some_iff.mp hlayer
          exact .layer hv hlayer hw
        · split at haddress
          · next h =>
            cases haddress
            obtain ⟨haddress, hpointer⟩ := Bool.and_eq_true_iff.mp h
            exact .address hv haddress hpointer
          · cases haddress
      · intro h
        cases h with
        | zero hzero => exact absurd hzero hnil
        | same _ htrue => rw [hv] at htrue; cases htrue
        | layer _ hlayer hw => exact .inl (Option.filter_eq_some_iff.mpr ⟨hlayer, hw⟩)
        | address _ haddress hpointer =>
          rw [deref?_of_isAddressable haddress, haddress, hpointer]
          exact .inr ⟨rfl, rfl⟩

/-- Coercion fails exactly if there is nothing to coerce to. -/
theorem coerce?_eq_none_iff : coerce? ty v = none ↔ ∀ w, ¬ Coerces ty v w := by
  simp only [Option.eq_none_iff_forall_ne_some, ne_eq, coerce?_eq_some_iff]

/-- A coerced argument is accepted, except that nil stands for the stream or the function that is
missing. -/
theorem Coerces.accepts (h : Coerces ty v w) :
    ty.accepts w = true ∨
      w = .nil ∧ (ty = .stream ∨ ty = .func) ∧ (v = .nil ∨ v = .nilBox) := by
  cases h with
  | zero hnil =>
    by_cases hty : ty = .stream ∨ ty = .func
    · exact .inr ⟨by rcases hty with rfl | rfl <;> rfl, hty, hnil⟩
    · exact .inl (ParamType.accepts_zero (not_or.mp hty).1 (not_or.mp hty).2)
  | same _ hv => exact .inl hv
  | layer _ _ hw => exact .inl hw
  | address _ _ hpointer => exact .inl hpointer

/-- Nil is accepted only where everything is. -/
theorem accepts_nil (hv : ty.accepts v = false) :
    ty.accepts .nil = false ∧ ty.accepts .nilBox = false := by
  cases ty with
  | any => simp [ParamType.accepts] at hv
  | _ => exact ⟨rfl, rfl⟩

/-- What a type accepts is not nil if there is anything that the type does not accept. -/
theorem not_nil_of_accepts (hw : ty.accepts w = true) (hv : ty.accepts v = false) :
    w ≠ .nil ∧ w ≠ .nilBox := by
  obtain ⟨hnil, hbox⟩ := accepts_nil hv
  constructor <;> rintro rfl
  · rw [hnil] at hw
    cases hw
  · rw [hbox] at hw
    cases hw

/-- A zero value is coerced to itself. -/
theorem coerces_zero (ty : ParamType) : Coerces ty ty.zero ty.zero := by
  cases ty with
  | any | stream | func => exact .zero (.inl rfl)
  | _ => exact .same ⟨nofun, nofun⟩ (ParamType.accepts_zero nofun nofun)

/-- An argument that has been coerced stays as it is. -/
theorem Coerces.again (h : Coerces ty v w) : Coerces ty w w := by
  cases h with
  | zero => exact coerces_zero ty
  | same hnil hv => exact .same hnil hv
  | layer hv _ hw => exact .same (not_nil_of_accepts hw hv) hw
  | address _ _ hpointer => exact .same ⟨nofun, nofun⟩ hpointer

/-! ### Lists of arguments -/

/-- Whether values are what arguments from a position on are coerced to. -/
inductive Coerced (sig : Signature) : Nat → List Value → List Value → Prop where
  | nil {index : Nat} : Coerced sig index [] []
  | cons {index : Nat} {ty : ParamType} {v w : Value} {args passed : List Value}
      (hty : sig.param? index = some ty) (hw : Coerces ty v w)
      (hrest : Coerced sig (index + 1) args passed) : Coerced sig index (v :: args) (w :: passed)

/-- Arguments stay as many when they are coerced. -/
theorem Coerced.length_eq (h : Coerced sig index args passed) : passed.length = args.length := by
  induction h with
  | nil => rfl
  | cons _ _ _ ih => rw [List.length_cons, List.length_cons, ih]

/-- Each value is what the argument of its position is coerced to. -/
theorem Coerced.coerces (h : Coerced sig index args passed) (hty : sig.param? (index + i) = some ty)
    (hv : args[i]? = some v) (hw : passed[i]? = some w) : Coerces ty v w := by
  induction h generalizing i with
  | nil => cases hv
  | @cons index _ _ _ _ _ hty' hw' _ ih =>
    cases i with
    | zero =>
      cases hv
      cases hw
      exact Option.some.inj (hty'.symm.trans hty) ▸ hw'
    | succ i =>
      rw [List.getElem?_cons_succ] at hv hw
      exact ih (by rwa [Nat.add_right_comm, Nat.add_assoc]) hv hw

/-- Arguments that can be coerced are coerced. -/
theorem coerceArgs_of_coerced (h : Coerced sig index args passed) :
    coerceArgs name sig index args = .ok passed := by
  induction h with
  | nil => rfl
  | cons hty hw _ ih =>
    simp only [coerceArgs, hty, coerce?_eq_some_iff.mpr hw, ih]
    rfl

/-- The first argument that cannot be coerced is reported. -/
theorem coerceArgs_of_misfit {before after : List Value} (hbefore : Coerced sig index before passed)
    (hty : sig.param? (index + before.length) = some ty) (hnot : ∀ w, ¬ Coerces ty v w) :
    coerceArgs name sig index (before ++ v :: after) =
      .error (.argumentMismatch name (index + before.length) ty.name v.typeName) := by
  induction hbefore with
  | nil =>
    rw [List.length_nil, Nat.add_zero] at hty ⊢
    simp only [List.nil_append, coerceArgs, hty, coerce?_eq_none_iff.mpr hnot]
  | @cons index _ _ _ before _ hty' hw _ ih =>
    have hindex : index + (before.length + 1) = index + 1 + before.length := by omega
    rw [List.length_cons, hindex] at hty ⊢
    simp only [List.cons_append, coerceArgs, hty', coerce?_eq_some_iff.mpr hw, ih hty]
    rfl

/-- Either all arguments can be coerced or there is a first one that cannot. -/
theorem exists_coerced_or_misfit (index : Nat) (args : List Value)
    (hdeclared : ∀ i < args.length, ∃ ty, sig.param? (index + i) = some ty) :
    (∃ passed, Coerced sig index args passed) ∨
      ∃ before v after passed ty, args = before ++ v :: after ∧ Coerced sig index before passed ∧
        sig.param? (index + before.length) = some ty ∧ ∀ w, ¬ Coerces ty v w := by
  induction args generalizing index with
  | nil => exact .inl ⟨[], .nil⟩
  | cons v args ih =>
    obtain ⟨ty, hty⟩ := hdeclared 0 (Nat.zero_lt_succ _)
    by_cases hv : ∃ w, Coerces ty v w
    · obtain ⟨w, hw⟩ := hv
      have hrest : ∀ i < args.length, ∃ ty, sig.param? (index + 1 + i) = some ty := fun i hi => by
        rw [Nat.add_assoc, Nat.add_comm 1 i]
        exact hdeclared (i + 1) (Nat.succ_lt_succ hi)
      rcases ih (index + 1) hrest with
        ⟨passed, hpassed⟩ | ⟨before, u, after, passed, ty', rfl, hbefore, hty', hnot⟩
      · exact .inl ⟨w :: passed, .cons hty hw hpassed⟩
      · refine .inr ⟨v :: before, u, after, w :: passed, ty', rfl, .cons hty hw hbefore, ?_, hnot⟩
        rwa [List.length_cons, Nat.add_comm before.length, ← Nat.add_assoc]
    · exact .inr ⟨[], v, args, [], ty, rfl, .nil, hty, not_exists.mp hv⟩

end Call

/-! ### Callees -/

/-- What a function answers for its fixed arguments and the tail. The second entry point gets the two
apart, the first one gets the tail as a sequence behind the fixed arguments. -/
def Function.entry (f : Function) (fixed tail : List Value) : Except String Value :=
  match f.sig.variadic, f.fast with
  | some .any, some fast => fast fixed tail
  | some _, _ => f.call (fixed ++ [.seq tail])
  | none, _ => f.call fixed

/-- What a method answers for its receiver, its fixed arguments and the tail. -/
def Method.entry (m : Method) (receiver : Value) (fixed tail : List Value) : Except String Value :=
  match m.sig.variadic with
  | some _ => m.call receiver (fixed ++ [.seq tail])
  | none => m.call receiver fixed

namespace Call

variable {name : String} {sig : Signature} {args fixed tail : List Value} {f : Function}
  {callee : List Value → List Value → Except String Value} {run : List Value → Except String Value}
  {r : Except RuntimeError Value}

/-- How a call ends, told from its arguments and from what the callee answers for the fixed ones and for
the tail. -/
inductive Ends (name : String) (sig : Signature) (args : List Value)
    (callee : List Value → List Value → Except String Value) : Except RuntimeError Value → Prop where
  | count (hcount : ¬ sig.Admits args.length) :
      Ends name sig args callee
        (.error (.arityMismatch name sig.params.length args.length sig.variadic.isSome))
  | misfit {before after passed : List Value} {v : Value} {ty : ParamType}
      (hcount : sig.Admits args.length) (hargs : args = before ++ v :: after)
      (hbefore : Coerced sig 0 before passed) (hty : sig.param? before.length = some ty)
      (hnot : ∀ w, ¬ Coerces ty v w) :
      Ends name sig args callee
        (.error (.argumentMismatch name before.length ty.name v.typeName))
  | entered {fixed tail : List Value} (hcount : sig.Admits args.length)
      (hfixed : fixed.length = sig.params.length) (hcoerced : Coerced sig 0 args (fixed ++ tail)) :
      Ends name sig args callee (returned name (callee fixed tail))

/-- A right number of arguments passes the check. -/
theorem checkArity_of_admits (h : sig.Admits args.length) :
    checkArity name sig args.length = .ok () := if_pos h

/-- A wrong number of arguments is reported with the declared one. -/
theorem checkArity_of_not_admits (h : ¬ sig.Admits args.length) :
    checkArity name sig args.length =
      .error (.arityMismatch name sig.params.length args.length sig.variadic.isSome) := if_neg h

/-- With a right number of arguments only coercion can fail. -/
theorem prepare_of_admits (h : sig.Admits args.length) :
    prepare name sig args = coerceArgs name sig 0 args := by
  rw [prepare, checkArity_of_admits h]
  rfl

/-- Without a tail all arguments are fixed. -/
theorem tail_eq_nil (htail : sig.variadic = none) (hcount : sig.Admits args.length)
    (hfixed : fixed.length = sig.params.length) (hcoerced : Coerced sig 0 args (fixed ++ tail)) :
    tail = [] := by
  have hlength : args.length = sig.params.length := by simpa [Signature.Admits, htail] using hcount
  have htotal : fixed.length + tail.length = args.length := by
    rw [← List.length_append, hcoerced.length_eq]
  exact List.eq_nil_of_length_eq_zero (by omega)

/-- A call that enters its callee with all arguments in one list ends as the rules tell. -/
theorem ends_iff
    (hrun : ∀ fixed tail, fixed.length = sig.params.length → (sig.variadic = none → tail = []) →
      run (fixed ++ tail) = callee fixed tail) :
    (prepare name sig args >>= fun passed => returned name (run passed)) = r ↔
      Ends name sig args callee r := by
  have hentered {fixed tail : List Value} (hcount : sig.Admits args.length)
      (hfixed : fixed.length = sig.params.length) (hcoerced : Coerced sig 0 args (fixed ++ tail)) :
      (prepare name sig args >>= fun passed => returned name (run passed)) =
        returned name (callee fixed tail) := by
    rw [prepare_of_admits hcount, coerceArgs_of_coerced hcoerced, ← hrun fixed tail hfixed fun htail =>
      tail_eq_nil htail hcount hfixed hcoerced]
    rfl
  constructor
  · rintro rfl
    by_cases hcount : sig.Admits args.length
    · rcases exists_coerced_or_misfit 0 args fun i hi => by
          rw [Nat.zero_add]
          exact hcount.exists_param hi with
        ⟨passed, hpassed⟩ | ⟨before, v, after, passed, ty, hargs, hbefore, hty, hnot⟩
      · have hle : sig.params.length ≤ passed.length := hpassed.length_eq ▸ hcount.length_le
        have hfixed : (passed.take sig.params.length).length = sig.params.length :=
          List.length_take_of_le hle
        have hcoerced : Coerced sig 0 args
            (passed.take sig.params.length ++ passed.drop sig.params.length) := by
          rwa [List.take_append_drop]
        rw [hentered hcount hfixed hcoerced]
        exact .entered hcount hfixed hcoerced
      · have hmisfit : coerceArgs name sig 0 args =
            .error (.argumentMismatch name before.length ty.name v.typeName) := by
          rw [hargs, coerceArgs_of_misfit hbefore hty hnot, Nat.zero_add]
        rw [Nat.zero_add] at hty
        rw [prepare_of_admits hcount, hmisfit]
        exact .misfit hcount hargs hbefore hty hnot
    · rw [prepare, checkArity_of_not_admits hcount]
      exact .count hcount
  · intro h
    cases h with
    | count hcount =>
      rw [prepare, checkArity_of_not_admits hcount]
      rfl
    | misfit hcount hargs hbefore hty hnot =>
      rw [prepare_of_admits hcount, hargs,
        coerceArgs_of_misfit hbefore (by rwa [Nat.zero_add]) hnot, Nat.zero_add]
      rfl
    | entered hcount hfixed hcoerced => exact hentered hcount hfixed hcoerced

/-- The fixed arguments and the tail, packed into a sequence if there is one. -/
theorem pack_append (hfixed : fixed.length = sig.params.length) (htail : sig.variadic = none → tail = []) :
    pack sig (fixed ++ tail) =
      match sig.variadic with
      | some _ => fixed ++ [.seq tail]
      | none => fixed := by
  rw [pack, ← hfixed, List.take_left, List.drop_left]
  cases hvariadic : sig.variadic with
  | none => rw [htail hvariadic, List.append_nil, if_neg nofun]
  | some ty => rfl

/-- A callee is entered with its fixed arguments and its tail. -/
theorem enter_append (hfixed : fixed.length = f.sig.params.length)
    (htail : f.sig.variadic = none → tail = []) : enter f (fixed ++ tail) = f.entry fixed tail := by
  rw [enter, pack_append hfixed htail, ← hfixed, List.take_left, List.drop_left, Function.entry]
  cases f.sig.variadic with
  | none => rfl
  | some ty => cases f.fast <;> cases ty <;> rfl

/-- The rules tell exactly how a call of a function ends. -/
theorem function_eq_iff : function f args = r ↔ Ends f.name f.sig args f.entry r :=
  ends_iff fun _ _ hfixed htail => enter_append hfixed htail

/-- The rules tell exactly how a call of a method ends. -/
theorem method_eq_iff {m : Method} {receiver : Value} :
    Call.method m receiver args = r ↔ Ends m.name m.sig args (m.entry receiver) r := by
  have hrun {fixed tail : List Value} (hfixed : fixed.length = m.sig.params.length)
      (htail : m.sig.variadic = none → tail = []) :
      m.call receiver (pack m.sig (fixed ++ tail)) = m.entry receiver fixed tail := by
    rw [pack_append hfixed htail, Method.entry]
    cases m.sig.variadic <;> rfl
  exact ends_iff fun _ _ => hrun

end Call

/-! ### Untyped operands -/

/-- A value as a callee gets it whose parameters have no types. -/
def Value.asOperand : Value → Value
  | nilBox => nil
  | v => v

namespace Call

variable {name : String} {returns : ParamType} {body : List Value → List Value → Except String Value}

/-- An operand of any type is passed as it is, and nil for an empty box. -/
theorem coerces_asOperand (v : Value) : Coerces .any v v.asOperand := by
  by_cases hbox : v = .nilBox
  · rw [hbox]
    exact .zero (.inr rfl)
  · have hv : v.asOperand = v := by
      unfold Value.asOperand
      split
      · exact absurd rfl hbox
      · rfl
    rw [hv]
    by_cases hnil : v = .nil
    · rw [hnil]
      exact .zero (.inl rfl)
    · exact .same ⟨hnil, hbox⟩ (by simp [ParamType.accepts])

/-- Operands of any type are passed as they are, and nil for empty boxes. -/
theorem coerced_asOperand (index : Nat) (args : List Value) :
    Coerced ⟨[], some .any, returns⟩ index args (args.map Value.asOperand) := by
  induction args generalizing index with
  | nil => exact .nil
  | cons v args ih => exact .cons rfl (coerces_asOperand v) (ih (index + 1))

/-- A function that takes any number of operands of all types is entered with all operands. -/
theorem function_operands (args : List Value) :
    function (.variadic name [] returns body) args =
      returned name (body [] (args.map Value.asOperand)) := by
  have hends : Ends name ⟨[], some .any, returns⟩ args
      (Function.variadic name [] returns body).entry
      (returned name ((Function.variadic name [] returns body).entry [] (args.map Value.asOperand))) :=
    .entered (Nat.zero_le args.length) rfl (coerced_asOperand 0 args)
  exact function_eq_iff.mpr hends

end Call

/-! ### Built-in functions -/

/-- Whether both entry points of a function, if it has two, answer the same. -/
def Function.Agrees (f : Function) : Prop :=
  ∀ fast, f.fast = some fast → ∀ fixed tail, fixed.length = f.sig.params.length →
    fast fixed tail = f.call (fixed ++ [.seq tail])

/-- A variadic function does the same at both of its entry points. -/
theorem Function.agrees_variadic (name : String) (params : List ParamType) (returns : ParamType)
    (body : List Value → List Value → Except String Value) :
    (Function.variadic name params returns body).Agrees := by
  rintro _ ⟨⟩ fixed tail hfixed
  have hparams : fixed.length = params.length := hfixed
  simp only [Function.variadic, ← hparams, List.take_left, List.drop_left, List.getLast?_singleton]
  rfl

/-- A function of one argument has no entry point of its own for a tail. -/
theorem Function.agrees_unary (name : String) (param returns : ParamType)
    (body : Value → Except String Value) : (Function.unary name param returns body).Agrees := nofun

/-- The built-in functions do the same at both of their entry points. -/
theorem Builtin.agrees_all (schema : Schema) : ∀ f ∈ Builtin.all schema, f.Agrees := by
  simp only [Builtin.all, Builtin.escapers, Builtin.textFunctions, List.forall_mem_append,
    List.forall_mem_cons, Function.agrees_variadic, Function.agrees_unary, List.not_mem_nil,
    false_implies, implies_true, and_true]

namespace Call

/-- Callees get arguments of their declared types. A call of a function or a method fails if the number
of arguments is wrong, else if one of them cannot be coerced, and else enters the callee with what they
are coerced to. This is accepted by the declared type of its position, except for nil in the place of a
stream or of a function, and coercing it again changes nothing. Of a built-in function it does not matter
which entry point is taken. -/
theorem callees_get_coerced_arguments (schema : Schema) (args : List Value) :
    (∀ f r, function f args = r ↔ Ends f.name f.sig args f.entry r) ∧
    (∀ m receiver r, Call.method m receiver args = r ↔ Ends m.name m.sig args (m.entry receiver) r) ∧
    (∀ sig passed, Coerced sig 0 args passed →
      ∀ i ty v w, sig.param? i = some ty → args[i]? = some v → passed[i]? = some w →
        ty.accepts w = true ∨ w = .nil ∧ (ty = .stream ∨ ty = .func) ∧ (v = .nil ∨ v = .nilBox)) ∧
    (∀ ty v w, coerce? ty v = some w → coerce? ty w = some w) ∧
    ∀ f ∈ Builtin.all schema, f.Agrees := by
  refine ⟨fun f r => function_eq_iff, fun m receiver r => method_eq_iff, ?_, ?_, Builtin.agrees_all schema⟩
  · intro sig passed hcoerced i ty v w hty hv hw
    exact (hcoerced.coerces (by rwa [Nat.zero_add]) hv hw).accepts
  · intro ty v w h
    exact coerce?_eq_some_iff.mpr (coerce?_eq_some_iff.mp h).again

namespace Sample

/-- A function of a stream and of any number of integers that answers what it gets. -/
def collect : Function :=
  ⟨"collect", ⟨[.stream], some .int, .any⟩, false, fun args => .ok (.seq args), none⟩

/-- No stream, a pointer to an integer, and no integer. -/
def given : List Value := [.nilBox, .ptr (.int 1), .nil]

/-- What the sample is given is coerced position by position. -/
theorem given_coerced : Coerced collect.sig 0 given [.nil, .int 1, .int 0] :=
  .cons rfl (.zero (.inr rfl)) (.cons rfl (.layer rfl rfl rfl) (.cons rfl (.zero (.inl rfl)) .nil))

end Sample

/-- Nil and a box for fixed parameters and a tail, and a coercion for each way that there is. -/
theorem callees_get_coerced_arguments_sample :
    Coerced Sample.collect.sig 0 Sample.given [.nil, .int 1, .int 0] ∧
      function Sample.collect Sample.given = .ok (.seq [.nil, .seq [.int 1, .int 0]]) ∧
      (ParamType.stream.accepts .nil = true ∨
        Value.nil = .nil ∧ (ParamType.stream = .stream ∨ ParamType.stream = .func) ∧
          (Value.nilBox = .nil ∨ Value.nilBox = .nilBox)) ∧
      coerce? .int (.int 1) = some (.int 1) ∧
      (Function.variadic Builtin.htmlEscaperName [] (.text .html) fun _ tail =>
        Builtin.htmlEscaper .plain tail).Agrees := by
  obtain ⟨hfunction, -, haccepts, hagain, hagrees⟩ :=
    callees_get_coerced_arguments .plain Sample.given
  have hends : Ends "collect" Sample.collect.sig Sample.given Sample.collect.entry
      (returned "collect" (Sample.collect.entry [.nil] [.int 1, .int 0])) :=
    .entered (by decide) rfl Sample.given_coerced
  refine ⟨Sample.given_coerced, (hfunction Sample.collect _).mpr hends, ?_, ?_, ?_⟩
  · exact haccepts _ _ Sample.given_coerced 0 .stream .nilBox .nil rfl rfl rfl
  · exact hagain .int (.ptr (.int 1)) (.int 1) rfl
  · exact hagrees _ (List.mem_append_left _ List.mem_cons_self)

end Call
end Stencil
