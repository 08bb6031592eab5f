import Stencil.Proofs.Balance

/-!
# Lexical scopes in code

Which variables are declared at an offset of some code can be told from the instructions in front of
it. That is so for code that removes variables in the reverse order of their declaration and jumps
only to where the same variables are declared. The layout of a branch is such code if its bodies are,
because all its jumps start and end where only the variables from in front of it are left.
-/

namespace Stencil

namespace Instr

/-- The variables that are declared behind an instruction, the last one first, from those that are
declared in front of it. -/
def scope (vars : List Nat) : Instr → List Nat
  | setVar name false => name :: vars
  | unsetVar _ => vars.tail
  | _ => vars

/-- Only an `UNSETVAR` ends the scope of a variable. -/
theorem scope_eq_declares {i : Instr} (hi : ∀ name, i ≠ .unsetVar name) (vars : List Nat) :
    i.scope vars = i.declares ++ vars := by
  cases i with
  | setVar name assign => cases assign <;> rfl
  | unsetVar name => exact absurd rfl (hi name)
  | _ => rfl

end Instr

/-- The variables that are declared behind code. -/
def scopeAfter (vars : List Nat) (code : List Instr) : List Nat := code.foldl Instr.scope vars

/-- No code changes the scope. -/
@[simp]
theorem scopeAfter_nil (vars : List Nat) : scopeAfter vars [] = vars := rfl

/-- The scope behind code is told instruction by instruction. -/
@[simp]
theorem scopeAfter_cons (vars : List Nat) (i : Instr) (code : List Instr) :
    scopeAfter vars (i :: code) = scopeAfter (i.scope vars) code := rfl

/-- The scope behind two codes is that of the second one behind the first one. -/
@[simp]
theorem scopeAfter_append (vars : List Nat) (code rest : List Instr) :
    scopeAfter vars (code ++ rest) = scopeAfter (scopeAfter vars code) rest :=
  List.foldl_append

/-- An instruction more adds its own change to the scope. -/
theorem scopeAfter_take_succ {pc : Nat} {i : Instr} {code : List Instr} (hi : code[pc]? = some i)
    (vars : List Nat) :
    scopeAfter vars (code.take (pc + 1)) = i.scope (scopeAfter vars (code.take pc)) := by
  rw [List.take_add_one, hi, scopeAfter_append]
  rfl

/-- Whether code that stands between other code removes nothing but the variable that was declared
last and jumps only to where the same variables are declared. -/
def ScopedIn (vars : List Nat) (front code rest : List Instr) : Prop :=
  ∀ (pc : Nat) (i : Instr), code[pc]? = some i →
    (∀ name, i = .unsetVar name → (scopeAfter vars (front ++ code.take pc)).head? = some name) ∧
    ∀ k, i.distance? = some k → ∃ target : Nat, ((front.length + pc : Nat) : Int) + k + 1 = target ∧
      target ≤ (front ++ code ++ rest).length ∧
      scopeAfter vars ((front ++ code ++ rest).take target) = scopeAfter vars (front ++ code.take pc)

/-- Whether code is lexically scoped and declares the given variables, the last one first. -/
structure Lexical (code : List Instr) (names : List Nat) : Prop where
  nested : ∀ vars, ScopedIn vars [] code []
  after : ∀ vars, scopeAfter vars code = names ++ vars

section

variable {vars names : List Nat} {front code rest : List Instr} {i : Instr}

/-- Code that is lexically scoped by itself is so between other code. -/
theorem Lexical.inside (h : Lexical code names) (vars : List Nat) (front rest : List Instr) :
    ScopedIn vars front code rest := by
  intro pc i hi
  obtain ⟨hremoves, hjumps⟩ := h.nested (scopeAfter vars front) pc i hi
  refine ⟨fun name hname => ?_, fun k hk => ?_⟩
  · rw [scopeAfter_append]
    exact hremoves name hname
  · obtain ⟨target, htarget, hle, hscope⟩ := hjumps k hk
    simp only [List.nil_append, List.append_nil, List.length_nil, Nat.zero_add] at htarget hle hscope
    refine ⟨front.length + target, by omega, by simp only [List.length_append]; omega, ?_⟩
    rw [List.append_assoc, List.take_length_add_append, List.take_append_of_le_length hle,
      scopeAfter_append, scopeAfter_append, hscope]

/-- No code has no jumps to check. -/
theorem scopedIn_nil : ScopedIn vars front [] rest := by
  intro pc i hi
  cases hi

/-- Scoped pieces one after the other are scoped. -/
theorem ScopedIn.append {code' : List Instr} (hcode : ScopedIn vars front code (code' ++ rest))
    (hcode' : ScopedIn vars (front ++ code) code' rest) : ScopedIn vars front (code ++ code') rest := by
  intro pc i hi
  rcases Nat.lt_or_ge pc code.length with hlt | hge
  · rw [List.getElem?_append_left hlt] at hi
    have hpiece := hcode pc i hi
    rw [List.take_append_of_le_length (Nat.le_of_lt hlt)]
    simpa only [List.append_assoc] using hpiece
  · rw [List.getElem?_append_right hge] at hi
    have hpiece := hcode' (pc - code.length) i hi
    have hoffset : (front ++ code).length + (pc - code.length) = front.length + pc := by
      rw [List.length_append]
      omega
    have htake : (code ++ code').take pc = code ++ code'.take (pc - code.length) := by
      rw [List.take_append, List.take_of_length_le hge]
    rw [hoffset] at hpiece
    rw [htake]
    simpa only [List.append_assoc] using hpiece

/-- An instruction that neither jumps nor removes a variable is scoped anywhere. -/
theorem scopedIn_instr (hdistance : i.distance? = none) (hunset : ∀ name, i ≠ .unsetVar name) :
    ScopedIn vars front [i] rest := by
  intro pc j hj
  obtain rfl := List.mem_singleton.mp (List.mem_of_getElem? hj)
  refine ⟨fun name hname => absurd hname (hunset name), fun k hk => ?_⟩
  rw [hdistance] at hk
  cases hk

/-- A jump is scoped if the same variables are declared behind the code that it leads to the end of. -/
theorem scopedIn_jump {k : Int} (hk : i.distance? = some k) (front' rest' : List Instr)
    (hsplit : front ++ i :: rest = front' ++ rest') (htarget : (front.length : Int) + k + 1 = front'.length)
    (hscope : scopeAfter vars front' = scopeAfter vars front) : ScopedIn vars front [i] rest := by
  intro pc j hj
  cases pc with
  | succ pc => cases hj
  | zero =>
    cases hj
    refine ⟨fun name hname => ?_, fun k' hk' => ?_⟩
    · rw [hname] at hk
      cases hk
    · cases hk.symm.trans hk'
      rw [List.append_assoc, List.singleton_append, hsplit]
      refine ⟨front'.length, by omega, by simp, ?_⟩
      rw [List.take_left, List.take_zero, List.append_nil, hscope]

/-- Code is scoped if its first instruction and the code behind it are. -/
theorem ScopedIn.cons (hi : ScopedIn vars front [i] (code ++ rest))
    (hcode : ScopedIn vars (front ++ [i]) code rest) : ScopedIn vars front (i :: code) rest :=
  hi.append hcode

/-! ### Lexically scoped code -/

/-- No code is lexical and declares nothing. -/
theorem lexical_nil : Lexical [] [] := ⟨fun _ => scopedIn_nil, fun _ => rfl⟩

/-- Lexical codes behind each other are lexical and declare what both do. -/
theorem Lexical.append {names' : List Nat} {code' : List Instr} (h : Lexical code names)
    (h' : Lexical code' names') : Lexical (code ++ code') (names' ++ names) where
  nested vars := (h.inside vars [] _).append (h'.inside vars _ [])
  after vars := by rw [scopeAfter_append, h.after, h'.after, List.append_assoc]

/-- An instruction that neither jumps nor removes a variable declares what it does declare. -/
theorem lexical_instr (hdistance : i.distance? = none) (hunset : ∀ name, i ≠ .unsetVar name) :
    Lexical [i] i.declares where
  nested _ := scopedIn_instr hdistance hunset
  after := Instr.scope_eq_declares hunset

/-- Straight-line code is lexically scoped. -/
theorem Straight.lexical (hcode : Straight code) : Lexical code (declaredBy code) := by
  induction code with
  | nil => exact lexical_nil
  | cons i code ih =>
    have hunset (name : Nat) (hi : i = .unsetVar name) : False := by
      have hstraight := hcode.head
      rw [hi] at hstraight
      cases hstraight
    rw [declaredBy_cons]
    exact (lexical_instr (Instr.distance?_of_isStraight hcode.head) hunset).append (ih hcode.tail)

/-- The variable that was declared last can be removed. -/
theorem Lexical.unsetVar {name : Nat} (h : Lexical code (name :: names)) :
    Lexical (code ++ [.unsetVar name]) names where
  nested vars := by
    refine (h.inside vars [] _).append fun pc i hi => ?_
    obtain rfl := List.mem_singleton.mp (List.mem_of_getElem? hi)
    cases pc with
    | succ pc => cases hi
    | zero =>
      refine ⟨fun name' hname => ?_, nofun⟩
      cases hname
      rw [List.take_zero, List.append_nil, List.nil_append, h.after]
      rfl
  after vars := by
    rw [scopeAfter_append, h.after]
    rfl

/-- Variables can be removed in the reverse order of their declaration. -/
theorem Lexical.unsetCode {more : List Nat} (h : Lexical code (names ++ more)) :
    Lexical (code ++ Compile.unsetCode names) more := by
  induction names generalizing code with
  | nil =>
    have hnil : Compile.unsetCode [] = [] := rfl
    rw [hnil, List.append_nil]
    exact h
  | cons name names ih =>
    have hcons : code ++ Compile.unsetCode (name :: names) =
        (code ++ [.unsetVar name]) ++ Compile.unsetCode names := by
      rw [List.append_assoc]
      rfl
    rw [hcons]
    exact ih h.unsetVar

/-- Only the variable that was declared last is removed. -/
theorem Lexical.head?_unsetVar (h : Lexical code names) {pc name : Nat}
    (hi : code[pc]? = some (.unsetVar name)) : (scopeAfter [] (code.take pc)).head? = some name :=
  (h.nested [] pc _ hi).1 name rfl

/-- The same variables are declared at both ends of a jump. -/
theorem Lexical.scopeAfter_target (h : Lexical code names) {pc target : Nat} {k : Int}
    (hi : code[pc]? = some i) (hk : i.distance? = some k)
    (htarget : jumpTarget? pc k code.length = some target) :
    scopeAfter [] (code.take target) = scopeAfter [] (code.take pc) := by
  obtain ⟨target', htarget', -, hscope⟩ := (h.nested [] pc i hi).2 k hk
  simp only [List.length_nil, Nat.zero_add, List.nil_append, List.append_nil] at htarget' hscope
  have hsame : target = target' := by
    have := (jumpTarget?_eq_some_iff.mp htarget).1
    omega
  rw [hsame, hscope]

/-- Lexically scoped code has no jump that leaves it. -/
theorem Lexical.closed (h : Lexical code names) : Closed code := by
  intro pc i k hi hk
  obtain ⟨target, htarget, hle, -⟩ := (h.nested [] pc i hi).2 k hk
  simp only [List.length_nil, Nat.zero_add, List.nil_append, List.append_nil] at htarget hle
  omega

end

namespace Compile

/-! ### Branches -/

section

variable {body code : List Instr} {orElse : Option (List Instr)}

/-- The jumps of a conditional start and end outside of its bodies. -/
theorem lexical_conditionalCode (hbody : Lexical body []) (horElse : Lexical (orElse.getD []) []) :
    Lexical (conditionalCode body orElse) [] := by
  have hskip (vars : List Nat) : scopeAfter vars body = vars := hbody.after vars
  cases orElse with
  | none =>
    have hwhole : conditionalCode body none = .jmpf body.length :: body := by
      simp [conditionalCode, alternativeCode]
    rw [hwhole]
    refine ⟨fun vars => .cons ?_ (hbody.inside vars _ _), fun vars => hskip vars⟩
    refine scopedIn_jump rfl (.jmpf body.length :: body) [] (by simp) (by simp) ?_
    exact hskip vars
  | some code =>
    have hcode (vars : List Nat) : scopeAfter vars code = vars := horElse.after vars
    have hwhole : conditionalCode body (some code) =
        .jmpf (body.length + 1 : Nat) :: (body ++ .jmp code.length :: code) := rfl
    rw [hwhole]
    refine ⟨fun vars => .cons ?_ ((hbody.inside vars _ _).append (.cons ?_ (horElse.inside vars _ _))),
      fun vars => ?_⟩
    · refine scopedIn_jump rfl (.jmpf (body.length + 1 : Nat) :: (body ++ [.jmp code.length])) code
        (by simp) (by simp) ?_
      simp [Instr.scope, hskip]
    · refine scopedIn_jump rfl
        (.jmpf (body.length + 1 : Nat) :: (body ++ .jmp code.length :: code)) [] (by simp) (by simp; omega)
        ?_
      simp [Instr.scope, hskip, hcode]
    · simp [Instr.scope, hskip, hcode]

/-- The jumps of a loop start and end outside of its bodies. -/
theorem lexical_loopCode (hbody : Lexical body []) (horElse : Lexical (orElse.getD []) []) :
    Lexical (loopCode body orElse) [] := by
  have hskip (vars : List Nat) : scopeAfter vars body = vars := hbody.after vars
  cases orElse with
  | none =>
    have hwhole : loopCode body none =
        .next (body.length + 1 : Nat) :: (body ++ [.jmp (-(body.length + 2 : Nat))]) := by
      simp [loopCode, alternativeCode]
    rw [hwhole]
    refine ⟨fun vars => .cons ?_ ((hbody.inside vars _ _).append ?_), fun vars => ?_⟩
    · refine scopedIn_jump rfl
        (.next (body.length + 1 : Nat) :: (body ++ [.jmp (-(body.length + 2 : Nat))])) [] (by simp)
        (by simp) ?_
      simp [Instr.scope, hskip]
    · refine scopedIn_jump rfl []
        (.next (body.length + 1 : Nat) :: (body ++ [.jmp (-(body.length + 2 : Nat))])) (by simp)
        (by simp; omega) ?_
      simp [Instr.scope, hskip]
    · simp [Instr.scope, hskip]
  | some code =>
    have hcode (vars : List Nat) : scopeAfter vars code = vars := horElse.after vars
    have hwhole : loopCode body (some code) =
        .next (body.length + 4 : Nat) :: .jmp 1 :: .next (body.length + 2 + code.length : Nat) ::
          (body ++ .jmp (-(body.length + 2 : Nat)) :: .jmp code.length :: code) := rfl
    generalize hall : loopCode body (some code) = whole at hwhole
    rw [hwhole]
    refine ⟨fun vars => .cons ?_ (.cons ?_ (.cons ?_ ((hbody.inside vars _ _).append
      (.cons ?_ (.cons ?_ (horElse.inside vars _ _)))))), fun vars => ?_⟩
    · refine scopedIn_jump rfl
        (.next (body.length + 4 : Nat) :: .jmp 1 :: .next (body.length + 2 + code.length : Nat) ::
          (body ++ [.jmp (-(body.length + 2 : Nat)), .jmp code.length])) code (by simp)
        (by simp; omega) ?_
      simp [Instr.scope, hskip]
    · refine scopedIn_jump rfl
        [.next (body.length + 4 : Nat), .jmp 1, .next (body.length + 2 + code.length : Nat)]
        (body ++ .jmp (-(body.length + 2 : Nat)) :: .jmp code.length :: code) (by simp) (by simp) ?_
      simp [Instr.scope]
    · refine scopedIn_jump rfl whole [] (by simp [hwhole]) (by simp [hwhole]; omega) ?_
      simp [hwhole, Instr.scope, hskip, hcode]
    · refine scopedIn_jump rfl [.next (body.length + 4 : Nat), .jmp 1]
        (.next (body.length + 2 + code.length : Nat) ::
          (body ++ .jmp (-(body.length + 2 : Nat)) :: .jmp code.length :: code)) (by simp)
        (by simp; omega) ?_
      simp [Instr.scope, hskip]
    · refine scopedIn_jump rfl whole [] (by simp [hwhole]) (by simp [hwhole]; omega) ?_
      simp [hwhole, Instr.scope, hskip, hcode]
    · simp [Instr.scope, hskip, hcode]

/-- An instruction of a layout that neither jumps nor has to do with variables. -/
theorem lexical_control {i : Instr} (hdistance : i.distance? = none) (hdeclares : i.declares = [])
    (hunset : ∀ name, i ≠ .unsetVar name) : Lexical [i] [] :=
  hdeclares ▸ lexical_instr hdistance hunset

/-- A `POP` that may be missing declares nothing. -/
theorem lexical_popCode (pop : Option Nat) : Lexical (popCode pop) [] := by
  cases pop with
  | none => exact lexical_nil
  | some n => exact lexical_control rfl rfl fun _ => nofun

/-- What holds back a `POP` declares nothing. -/
theorem lexical_holdCode (pop : Option Nat) : Lexical (Fragment.holdCode pop) [] := by
  rcases pop with _ | _ | n
  · exact lexical_nil
  · exact lexical_control rfl rfl fun _ => nofun
  · exact lexical_nil

/-- A binding that is only in force while a body runs. -/
theorem lexical_bound {bind : List Instr} {names : List Nat} {assign : Bool}
    (hbind : Lexical bind (if assign then [] else names)) (hbody : Lexical body []) :
    Lexical (bind ++ body ++ (if assign then [] else unsetCode names)) [] := by
  have hbound := hbind.append hbody
  cases assign with
  | true => exact hbound.append lexical_nil
  | false =>
    have hnames : Lexical (bind ++ body) (names ++ []) := by
      rw [List.append_nil]
      exact hbound
    exact hnames.unsetCode

/-- Setting a variable declares it unless it is assigned. -/
theorem lexical_setVar (name : Nat) (assign : Bool) :
    Lexical [.setVar name assign] (if assign then [] else [name]) := by
  cases assign <;> exact lexical_instr rfl fun _ => nofun

/-- The variables of a range that has at most two of them are removed at the end of each turn. -/
theorem lexical_turnCode (assign : Bool) {decl : List Nat} (hdecl : decl.length ≤ 2)
    (hbody : Lexical body []) : Lexical (turnCode assign decl body) [] := by
  have hpushDot : Lexical [.pushDot] [] := lexical_control rfl rfl fun _ => nofun
  have hpopDot : Lexical [.popDot] [] := lexical_control rfl rfl fun _ => nofun
  have hpop (n : Nat) : Lexical [.pop n] [] := lexical_popCode (some n)
  have hbind : Lexical (bindCode assign decl) (if assign then [] else decl) := by
    match decl, hdecl with
    | [], _ => cases assign <;> exact hpop 2
    | [value], _ => exact (lexical_setVar value assign).append (hpop 1)
    | [key, value], _ =>
      have hboth := (lexical_setVar value assign).append (lexical_setVar key assign)
      cases assign <;> exact hboth
  exact hpushDot.append ((lexical_bound hbind hbody).append hpopDot)

/-- The variable of a conditional is removed at the end of its body. -/
theorem lexical_boundCode (assign : Bool) (decl : List Nat) (pop : Option Nat)
    (hbody : Lexical body []) : Lexical (boundCode assign decl pop body) [] := by
  cases decl with
  | nil => exact hbody
  | cons name names =>
    exact (lexical_bound (lexical_setVar name assign) hbody).append (lexical_popCode _)

/-- The other way through a branch declares nothing if its alternative does not. -/
theorem lexical_otherCode (decl : List Nat) (pop : Option Nat) (horElse : Lexical (orElse.getD []) []) :
    Lexical ((otherCode decl pop orElse).getD []) [] := by
  have hpop : Lexical (if decl.isEmpty then [] else popCode pop) [] := by
    split
    · exact lexical_nil
    · exact lexical_popCode pop
  rw [getD_otherCode]
  exact horElse.append hpop

/-- A branch leaves no variable behind, apart from those of its condition. -/
theorem lexical_branchCode (kind : BranchKind) (assign : Bool) (decl : List Nat) (pop : Option Nat)
    (hdecl : kind = .range → decl.length ≤ 2) (hbody : Lexical body [])
    (horElse : Lexical (orElse.getD []) []) :
    Lexical (branchCode kind assign decl pop body orElse) [] := by
  have hbound := lexical_boundCode assign decl pop hbody
  have hother := lexical_otherCode decl pop horElse
  cases kind with
  | ifThen => exact (lexical_conditionalCode hbound hother).append (lexical_popCode _)
  | withDot =>
    have hpushDot : Lexical [.pushDot] [] := lexical_control rfl rfl fun _ => nofun
    have hpopDot : Lexical [.popDot] [] := lexical_control rfl rfl fun _ => nofun
    have hdotted : Lexical (.pushDot :: (boundCode assign decl pop body ++ [.popDot])) [] :=
      hpushDot.append (hbound.append hpopDot)
    exact (lexical_conditionalCode hdotted hother).append (lexical_popCode _)
  | range =>
    have hiter : Lexical [.iter] [] := lexical_control rfl rfl fun _ => nofun
    exact hiter.append
      ((lexical_loopCode (lexical_turnCode assign (hdecl rfl) hbody) horElse).append
        (lexical_popCode pop))

end

end Compile
end Stencil
