import Stencil.Proofs.Keeping
import Stencil.Proofs.Templates

/-!
# Points of runs

Where a run of a program can get: from one instruction to the next one, and into the templates that
are called. What holds at the start of a run and is kept from each point to the ones behind it holds
wherever the run gets, whether it ends or not. In particular the code of lexically scoped templates
always finds the variables that its scopes promise, on top of all those that were bound before.
-/

namespace Stencil

/-- A point of a run: the names of the templates that are running, the innermost first, the code of
the innermost one, an offset in it, and the machine. -/
structure Point where
  chain : List String
  code : List Instr
  pc : Nat
  machine : Machine

/-- An instruction other than a call goes on with what its step does. -/
theorem Env.instr_eq_done {env : Env} {i : Instr} {m m' : Machine}
    (hnot : ∀ ns index, i ≠ .template ns index) :
    env.instr i m (.done m') ↔ m.step env.schema env.tables i = .next m' := by
  rw [instr_of_not_template hnot]
  cases m.step env.schema env.tables i <;> simp [Step.outcome?]

namespace Program

/-- Whether a run that is at one point can get to another one. A template call leads to the start of
the template and, if that ends, behind the call. -/
inductive Reaches (p : Program) (start : Point) : Point → Prop where
  | refl : Reaches p start start
  | next {P : Point} {i : Instr} {m : Machine} : Reaches p start P → P.code[P.pc]? = some i →
      p.env.instr i P.machine (.done m) → Reaches p start { P with pc := P.pc + 1, machine := m }
  | jump {P : Point} {i : Instr} {m : Machine} {k : Int} {target : Nat} : Reaches p start P →
      P.code[P.pc]? = some i → P.machine.step p.schema p.tables i = .jump k m →
      jumpTarget? P.pc k P.code.length = some target →
      Reaches p start { P with pc := target, machine := m }
  | call {P : Point} {ns index : Nat} {nsName target : String} {v : Value} {u : CompiledTemplate} :
      Reaches p start P → P.code[P.pc]? = some (.template ns index) →
      P.machine.callee p ns index = .ok (nsName, target, v) → p.templates[target]? = some u →
      Reaches p start ⟨target :: P.chain, u.code.toList, 0, P.machine.activate nsName v⟩

/-- Where the run of a template with its data and variables starts. -/
def startPoint (name : String) (u : CompiledTemplate) (data vars : Value) (m : Machine) : Point :=
  ⟨[name], u.code.toList, 0, (m.bind Tables.varsVar vars).activate "" data⟩

/-- Whether a run from a point assigns variables only in the given places. -/
def AssignsOnly (p : Program) (assigned : Nat → Nat → Prop) (start : Point) : Prop :=
  ∀ P, p.Reaches start P → ∀ name, P.code[P.pc]? = some (.setVar name true) →
    ∀ k, Bindings.place? name P.machine.bindings = some k → assigned k name

variable {p : Program} {assigned : Nat → Nat → Prop} {start P Q : Point} {chain : List String}
  {code : List Instr} {names above : List Nat} {base : List (Nat × Value)} {m m' : Machine}
  {ns index pc : Nat}

/-- What is reached from a point that is reached is reached. -/
theorem Reaches.trans (h : p.Reaches start P) (h' : p.Reaches P Q) : p.Reaches start Q := by
  induction h' with
  | refl => exact h
  | next _ hi hdo ih => exact .next ih hi hdo
  | jump _ hi hstep htarget ih => exact .jump ih hi hstep htarget
  | call _ hi hcallee hu ih => exact .call ih hi hcallee hu

/-- What is assigned from a point on is assigned from every point before it. -/
theorem AssignsOnly.of_reaches (h : p.AssignsOnly assigned start) (hreach : p.Reaches start P) :
    p.AssignsOnly assigned P := fun Q hQ => h Q (hreach.trans hQ)

/-- A call that returns has run its target on an activation of its own. -/
theorem enter_eq_done {run : String → CompiledTemplate → Effect}
    (h : p.enter run ns index m (.done m')) :
    ∃ nsName target v u after, m.callee p ns index = .ok (nsName, target, v) ∧
      p.templates[target]? = some u ∧ run target u (m.activate nsName v) (.done after) ∧
      m' = m.leave after := by
  unfold enter at h
  split at h
  · cases h
  · next nsName target v hcallee =>
    split at h
    · cases h
    · next u hu =>
      obtain ⟨r, hrun, hr⟩ := h
      obtain ⟨after, rfl, rfl⟩ := Outcome.map_eq_done_iff.mp hr
      exact ⟨nsName, target, v, u, after, hcallee, hu, hrun, rfl⟩

/-! ### What a run keeps -/

/-- An activation adds bindings and keeps the others. -/
theorem keeps_activate (nsName : String) (v : Value) (m : Machine) :
    ∃ own, Bindings.Keeps assigned own m.bindings (m.activate nsName v).bindings := by
  obtain ⟨own, hown⟩ := Machine.activate_eq nsName v m
  rw [hown]
  exact ⟨_, .append own m.bindings⟩

/-- A call gives up all bindings of its target. -/
theorem keeps_leave {after : Machine} (h : Bindings.Keeps assigned names m.bindings after.bindings) :
    Bindings.Keeps assigned [] m.bindings (m.leave after).bindings := by
  have hlength : after.bindings.length - m.bindings.length = names.length := by
    have hlength := congrArg List.length h.names
    simp only [List.length_map, List.length_append] at hlength
    omega
  have hall : Bindings.Keeps assigned (names ++ []) m.bindings after.bindings := by
    rwa [List.append_nil]
  have hleft : (m.leave after).bindings = after.bindings.drop names.length := by
    rw [← hlength]
    rfl
  rw [hleft]
  exact hall.drop

/-- If calls keep the bindings that there are, lexically scoped code does so on its way to its end. -/
theorem keeps_of_calls {env : Env} (hschema : env.schema = p.schema) (htables : env.tables = p.tables)
    (hcalls : ∀ pc m m' ns index, code[pc]? = some (.template ns index) →
      p.AssignsOnly assigned ⟨chain, code, pc, m⟩ → env.call ns index m (.done m') →
      p.call ns index m (.done m') ∧ Bindings.Keeps assigned [] m.bindings m'.bindings)
    (hcode : Lexical code names) (hpc : pc ≤ code.length)
    (honly : p.AssignsOnly assigned ⟨chain, code, pc, m⟩)
    (hkeeps : Bindings.Keeps assigned (scopeAfter [] (code.take pc) ++ above) base m.bindings)
    {n : Nat} (h : env.Ends code n pc m (.done m')) :
    Bindings.Keeps assigned (names ++ above) base m'.bindings := by
  generalize ho : Outcome.done m' = o at h
  induction h with
  | stop hstop =>
    cases ho
    have hall := hcode.after []
    rw [List.append_nil] at hall
    rwa [List.take_of_length_le hstop, hall] at hkeeps
  | @next n pc m m₁ i o hi hdo _ ih =>
    by_cases hcall : ∃ ns index, i = .template ns index
    · obtain ⟨ns, index, rfl⟩ := hcall
      obtain ⟨hdo', hkept⟩ := hcalls pc m m₁ ns index hi honly hdo
      refine ih (Env.getElem?_lt hi) (honly.of_reaches (.next .refl hi hdo')) ?_ ho
      rw [scopeAfter_take_succ hi]
      exact hkeeps.trans hkept
    · have hnot : ∀ ns index, i ≠ .template ns index := fun ns index heq => hcall ⟨ns, index, heq⟩
      have hstep := (Env.instr_eq_done hnot).mp hdo
      rw [hschema, htables] at hstep
      have hdo' : p.env.instr i m (.done m₁) := (Env.instr_eq_done hnot).mpr hstep
      refine ih (Env.getElem?_lt hi) (honly.of_reaches (.next .refl hi hdo')) ?_ ho
      rw [scopeAfter_take_succ hi]
      refine Machine.keeps_step hkeeps hstep (fun name hname => ?_) (fun name hname => ?_)
      · exact hcode.head?_unsetVar (hname ▸ hi)
      · exact honly _ .refl name (hname ▸ hi)
  | fail _ _ hfails =>
    subst ho
    exact hfails.elim
  | @jump n pc target m m₁ i k o hi hstep htarget _ ih =>
    rw [hschema, htables] at hstep
    refine ih (jumpTarget?_eq_some_iff.mp htarget).2
      (honly.of_reaches (.jump .refl hi hstep htarget)) ?_ ho
    rw [hcode.scopeAfter_target hi (Machine.distance?_of_step_jump hstep) htarget,
      Machine.bindings_of_step_jump hstep]
    exact hkeeps
  | astray => cases ho

/-- With calls nested at most so deep, lexically scoped code keeps the bindings that there are. -/
theorem keeps_level (hp : p.IsLexical) (n : Nat) (hcode : Lexical code names)
    (honly : p.AssignsOnly assigned ⟨chain, code, 0, m⟩)
    (h : (p.level n).Runs code m (.done m')) :
    Bindings.Keeps assigned names m.bindings m'.bindings := by
  induction n generalizing chain code names m m' with
  | zero =>
    obtain ⟨k, h⟩ := h
    have hcalls (pc : Nat) (m m' : Machine) (ns index : Nat)
        (_ : code[pc]? = some (.template ns index)) (_ : p.AssignsOnly assigned ⟨chain, code, pc, m⟩)
        (hcall : (p.level 0).call ns index m (.done m')) :
        p.call ns index m (.done m') ∧ Bindings.Keeps assigned [] m.bindings m'.bindings := hcall.elim
    have hkept : Bindings.Keeps assigned (names ++ []) m.bindings m'.bindings :=
      keeps_of_calls rfl rfl hcalls hcode (Nat.zero_le _) honly (.refl _) h
    rwa [List.append_nil] at hkept
  | succ n ih =>
    obtain ⟨k, h⟩ := h
    have hcalls (pc : Nat) (m m' : Machine) (ns index : Nat) (hi : code[pc]? = some (.template ns index))
        (honly : p.AssignsOnly assigned ⟨chain, code, pc, m⟩)
        (hcall : (p.level (n + 1)).call ns index m (.done m')) :
        p.call ns index m (.done m') ∧ Bindings.Keeps assigned [] m.bindings m'.bindings := by
      refine ⟨call_of_level ns index m _ hcall, ?_⟩
      obtain ⟨nsName, target, v, u, after, hcallee, hu, hrun, rfl⟩ := enter_eq_done hcall
      obtain ⟨names, hu'⟩ := hp target u hu
      obtain ⟨own, hown⟩ : ∃ own, Bindings.Keeps assigned own m.bindings (m.activate nsName v).bindings :=
        keeps_activate nsName v m
      have hbody := ih hu' (honly.of_reaches (.call .refl hi hcallee hu)) hrun
      exact keeps_leave (hown.trans hbody)
    have hkept : Bindings.Keeps assigned (names ++ []) m.bindings m'.bindings :=
      keeps_of_calls rfl rfl hcalls hcode (Nat.zero_le _) honly (.refl _) h
    rwa [List.append_nil] at hkept

/-- Lexically scoped code keeps the bindings that there are. -/
theorem keeps_runs (hp : p.IsLexical) (hcode : Lexical code names)
    (honly : p.AssignsOnly assigned ⟨chain, code, 0, m⟩) (h : p.env.Runs code m (.done m')) :
    Bindings.Keeps assigned names m.bindings m'.bindings := by
  obtain ⟨n, hlevel⟩ := (runs_iff_exists_level ⟨code.toArray, #[], none⟩).mp h
  exact keeps_level hp n hcode honly hlevel

/-- A call keeps the bindings that there are and leaves none behind. -/
theorem keeps_call (hp : p.IsLexical) (hi : code[pc]? = some (.template ns index))
    (honly : p.AssignsOnly assigned ⟨chain, code, pc, m⟩) (h : p.call ns index m (.done m')) :
    Bindings.Keeps assigned [] m.bindings m'.bindings := by
  rw [call_eq] at h
  obtain ⟨nsName, target, v, u, after, hcallee, hu, hrun, rfl⟩ := enter_eq_done h
  obtain ⟨names, hu'⟩ := hp target u hu
  obtain ⟨own, hown⟩ : ∃ own, Bindings.Keeps assigned own m.bindings (m.activate nsName v).bindings :=
    keeps_activate nsName v m
  have hbody := keeps_runs hp hu' (honly.of_reaches (.call .refl hi hcallee hu)) hrun
  exact keeps_leave (hown.trans hbody)

/-- Wherever a run gets, the variables of the scope that it is in lie on top of those of the scopes
around it, and all that were bound at its start are kept. -/
theorem Reaches.keeps (hp : p.IsLexical) (hstart : Lexical start.code names) (hzero : start.pc = 0)
    (honly : p.AssignsOnly assigned start) (h : p.Reaches start P) :
    ∃ names above, Lexical P.code names ∧ Bindings.Keeps assigned
      (scopeAfter [] (P.code.take P.pc) ++ above) start.machine.bindings P.machine.bindings := by
  induction h with
  | refl =>
    refine ⟨names, [], hstart, ?_⟩
    rw [hzero]
    exact .refl _
  | @next P i m hreach hi hdo ih =>
    obtain ⟨names, above, hcode, hkeeps⟩ := ih
    refine ⟨names, above, hcode, ?_⟩
    rw [scopeAfter_take_succ hi]
    by_cases hcall : ∃ ns index, i = .template ns index
    · obtain ⟨ns, index, rfl⟩ := hcall
      exact hkeeps.trans (keeps_call hp hi (honly.of_reaches hreach) hdo)
    · have hnot : ∀ ns index, i ≠ .template ns index := fun ns index heq => hcall ⟨ns, index, heq⟩
      have hstep := (Env.instr_eq_done hnot).mp hdo
      refine Machine.keeps_step hkeeps hstep (fun name hname => ?_) (fun name hname => ?_)
      · exact hcode.head?_unsetVar (hname ▸ hi)
      · exact honly P hreach name (hname ▸ hi)
  | @jump P i m k target _ hi hstep htarget ih =>
    obtain ⟨names, above, hcode, hkeeps⟩ := ih
    refine ⟨names, above, hcode, ?_⟩
    rw [hcode.scopeAfter_target hi (Machine.distance?_of_step_jump hstep) htarget,
      Machine.bindings_of_step_jump hstep]
    exact hkeeps
  | @call P ns index nsName target v u _ hi hcallee hu ih =>
    obtain ⟨names, above, -, hkeeps⟩ := ih
    obtain ⟨names', hu'⟩ := hp target u hu
    obtain ⟨own, hown⟩ : ∃ own, Bindings.Keeps assigned own P.machine.bindings
        (P.machine.activate nsName v).bindings := keeps_activate nsName v P.machine
    exact ⟨names', own ++ (scopeAfter [] (P.code.take P.pc) ++ above), hu', hkeeps.trans hown⟩

/-- Wherever a run is about to remove a variable, that is the innermost one. -/
theorem Reaches.step_unsetVar (hp : p.IsLexical) (hstart : Lexical start.code names)
    (hzero : start.pc = 0) (h : p.Reaches start P) {name : Nat}
    (hi : P.code[P.pc]? = some (.unsetVar name)) :
    ∃ bindings, P.machine.step p.schema p.tables (.unsetVar name) =
      .next { P.machine with bindings := bindings } := by
  have honly : p.AssignsOnly (fun _ _ => True) start := fun _ _ _ _ _ _ => trivial
  obtain ⟨names, above, hcode, hkeeps⟩ := h.keeps hp hstart hzero honly
  exact Machine.step_unsetVar hkeeps (hcode.head?_unsetVar hi)

end Program

/-! ### Straight-line code in runs -/

section

variable {front code rest : List Instr}

/-- Straight-line code does not jump. -/
theorem Straight.skips (h : Straight code) (low high : Int) : Skips low high code := by
  intro pc i k hi hk
  rw [Instr.distance?_of_isStraight (h i (List.mem_of_getElem? hi))] at hk
  cases hk

/-- No jump leads into code that can only be entered at its start and does not jump into itself. -/
theorem Skips.whole (hcode : Skips 0 code.length code)
    (hfront : Skips front.length (front.length + code.length : Nat) front)
    (hrest : Skips (-code.length) 0 rest) :
    Skips front.length (front.length + code.length : Nat) (front ++ code ++ rest) := by
  refine (hfront.append (hcode.mono (by omega) (by omega))).append (hrest.mono ?_ ?_)
  all_goals
    rw [List.length_append]
    omega

/-- No jump leads into straight-line code that can only be entered at its start. -/
theorem Straight.skips_whole (h : Straight code)
    (hfront : Skips front.length (front.length + code.length : Nat) front)
    (hrest : Skips (-code.length) 0 rest) :
    Skips front.length (front.length + code.length : Nat) (front ++ code ++ rest) :=
  .whole (h.skips _ _) hfront hrest

/-- A piece of straight-line code can only be entered at its start. -/
theorem Straight.enclosed {whole : List Instr} (h : Straight whole) (hpart : code <:+: whole) :
    Enclosed code whole := by
  obtain ⟨front, rest, rfl⟩ := hpart
  obtain ⟨hfront, hrest⟩ := List.forall_mem_append.mp h
  exact .between (Straight.closed (List.forall_mem_append.mp hfront).1) (Straight.closed hrest) code

namespace Program

variable {p : Program} {start P : Point} {n k : Nat}

/-- A point that is reached at an offset is reached with its machine. -/
theorem Reaches.exists_here (h : p.Reaches start P) (hpc : P.pc = k) :
    ∃ m, p.Reaches start { P with pc := k, machine := m } ∧
      m.steps p.schema p.tables [] = .done P.machine := by
  subst hpc
  exact ⟨P.machine, h, rfl⟩

/-- A run that is inside code that can only be entered at its start, with only straight-line code in
front of it, has entered it there and done its steps. -/
theorem Reaches.exists_entry
    (hskips : Skips front.length (front.length + code.length : Nat) (front ++ code ++ rest))
    (hstraight : Straight (code.take n)) (hzero : start.pc = 0) (h : p.Reaches start P)
    (hwhole : P.code = front ++ code ++ rest) (hpc : P.pc = front.length + n) (hn : n < code.length) :
    ∃ m, p.Reaches start { P with pc := front.length, machine := m } ∧
      m.steps p.schema p.tables (code.take n) = .done P.machine := by
  induction h generalizing n with
  | refl =>
    obtain rfl : n = 0 := by omega
    exact Reaches.refl.exists_here hpc
  | @next P i m hreach hi hdo ih =>
    cases n with
    | zero => exact (hreach.next hi hdo).exists_here hpc
    | succ n =>
      have hpc : P.pc = front.length + n := by
        have hpc : P.pc + 1 = front.length + (n + 1) := hpc
        omega
      have hfirst : Straight (code.take n) := by
        simpa only [List.take_take, Nat.min_eq_left (Nat.le_succ n)] using hstraight.take n
      obtain ⟨m₀, hentry, hsteps⟩ := ih hfirst hwhole hpc (by omega)
      have hin : code[n]? = some i := by
        rwa [show P.code = front ++ code ++ rest from hwhole, List.append_assoc, hpc,
          List.getElem?_append_right (Nat.le_add_right _ _), Nat.add_sub_cancel_left,
          List.getElem?_append_left (by omega)] at hi
      have hi' : i.isStraight := by
        refine hstraight i ?_
        rw [List.take_add_one, hin]
        exact List.mem_append_right _ (List.mem_singleton_self i)
      have hstep : P.machine.step p.schema p.tables i = .next m := by
        refine (Env.instr_eq_done fun ns index heq => ?_).mp hdo
        rw [heq] at hi'
        cases hi'
      refine ⟨m₀, hentry, ?_⟩
      rw [List.take_add_one, hin, Machine.steps_append_eq_done]
      exact ⟨P.machine, hsteps, (Machine.steps_singleton_eq_done hi').mpr hstep⟩
  | @jump P i m k target hreach hi hstep htarget ih =>
    have hk := Machine.distance?_of_step_jump hstep
    obtain ⟨hto, -⟩ := jumpTarget?_eq_some_iff.mp htarget
    have hcode : P.code = front ++ code ++ rest := hwhole
    have hout := hskips P.pc i k (hcode ▸ hi) hk
    have hto' : target = front.length + n := hpc
    obtain rfl : n = 0 := by omega
    exact (hreach.jump hi hstep htarget).exists_here hpc
  | @call P ns index nsName target v u hreach hi hcallee hu ih =>
    have hpc : 0 = front.length + n := hpc
    obtain rfl : n = 0 := by omega
    exact (hreach.call hi hcallee hu).exists_here hpc

/-- A run that gets to straight-line code gets through it if its steps succeed. -/
theorem Reaches.steps {chain : List String} {m m' : Machine}
    (h : p.Reaches start ⟨chain, front ++ code ++ rest, front.length, m⟩) (hstraight : Straight code)
    (hsteps : m.steps p.schema p.tables code = .done m') :
    p.Reaches start ⟨chain, front ++ code ++ rest, (front ++ code).length, m'⟩ := by
  induction code generalizing front m with
  | nil =>
    cases hsteps
    simpa using h
  | cons i code ih =>
    obtain ⟨m₁, hstep, hrest⟩ := (Machine.steps_cons_eq_done hstraight.head).mp hsteps
    have hwhole : front ++ i :: code ++ rest = (front ++ [i]) ++ code ++ rest := by simp
    have hi : (front ++ i :: code ++ rest)[front.length]? = some i := by simp
    have hnot (ns index : Nat) (heq : i = .template ns index) : False := by
      have hi' := hstraight.head
      rw [heq] at hi'
      cases hi'
    have hnext := h.next hi ((Env.instr_eq_done hnot).mpr hstep)
    rw [hwhole] at hnext ⊢
    have hlength : (front ++ i :: code).length = ((front ++ [i]) ++ code).length := by simp
    rw [hlength]
    refine ih ?_ hstraight.tail hrest
    rwa [List.length_append, List.length_singleton]

end Program

end

end Stencil
