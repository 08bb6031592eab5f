import Stencil.Compile.Stitch
import Stencil.Proofs.Nesting

/-!
# Stitched programs

Writing a trivial template in place of its calls does not change what a program does. A call that is
replaced would find its data on the stack, and the template would do nothing but write its chunk.
-/

namespace Stencil

namespace Env

/-- Runs can be told from those of other code that does the same at every offset. -/
theorem RunsFrom.transfer {env env' : Env} {code code' : List Instr} {pc : Nat} {m : Machine}
    {o : Outcome} (h : env.RunsFrom code pc m o) (hlength : code.length = code'.length)
    (hcode : ∀ (pc : Nat) (i : Instr), code[pc]? = some i → ∃ i', code'[pc]? = some i' ∧
      (∀ m o, env.instr i m o → env'.instr i' m o) ∧
      ∀ (m m' : Machine) (k : Int), m.step env.schema env.tables i = .jump k m' →
        m.step env'.schema env'.tables i' = .jump k m') : env'.RunsFrom code' pc m o := by
  obtain ⟨n, h⟩ := h
  refine ⟨n, ?_⟩
  induction h with
  | stop hstop => exact .stop (hlength ▸ hstop)
  | next hi hdo _ ih =>
    obtain ⟨i', hi', hinstr, -⟩ := hcode _ _ hi
    exact .next hi' (hinstr _ _ hdo) ih
  | fail hi hdo ho =>
    obtain ⟨i', hi', hinstr, -⟩ := hcode _ _ hi
    exact .fail hi' (hinstr _ _ hdo) ho
  | jump hi hstep htarget _ ih =>
    obtain ⟨i', hi', -, hjump⟩ := hcode _ _ hi
    exact .jump hi' (hjump _ _ _ hstep) (hlength ▸ htarget) ih
  | astray hi hstep htarget =>
    obtain ⟨i', hi', -, hjump⟩ := hcode _ _ hi
    exact .astray hi' (hjump _ _ _ hstep) (hlength ▸ htarget)

/-- The same program, in which a call does what another instruction does. -/
def calling (env : Env) (φ : Instr → Instr) : Env :=
  { env with call := fun ns index => env.instr (φ (.template ns index)) }

/-- Code in which calls are replaced runs like the code with other calls. -/
theorem runsFrom_map {env : Env} {φ : Instr → Instr} (code : List Instr) (pc : Nat)
    (hsame : ∀ i, (∀ ns index, i ≠ .template ns index) → φ i = i)
    (hjump : ∀ ns index, (φ (.template ns index)).distance? = none) :
    env.RunsFrom (code.map φ) pc = (env.calling φ).RunsFrom code pc := by
  have hinstr (i : Instr) : env.instr (φ i) = (env.calling φ).instr i := by
    by_cases hcall : ∃ ns index, i = .template ns index
    · obtain ⟨ns, index, rfl⟩ := hcall
      rfl
    · have hnot : ∀ ns index, i ≠ .template ns index := fun ns index hi => hcall ⟨ns, index, hi⟩
      rw [hsame i hnot]
      cases i <;> first | rfl | exact absurd rfl (hnot _ _)
  have hstep (i : Instr) (m m' : Machine) (k : Int) :
      m.step env.schema env.tables (φ i) = .jump k m' ↔ m.step env.schema env.tables i = .jump k m' := by
    by_cases hcall : ∃ ns index, i = .template ns index
    · obtain ⟨ns, index, rfl⟩ := hcall
      constructor
      · intro h
        have hnone := hjump ns index
        rw [Machine.distance?_of_step_jump h] at hnone
        cases hnone
      · intro h
        cases h
    · rw [hsame i fun ns index hi => hcall ⟨ns, index, hi⟩]
  funext m o
  apply propext
  constructor
  · intro h
    apply h.transfer (List.length_map φ)
    intro pc i' hi'
    rw [List.getElem?_map, Option.map_eq_some_iff] at hi'
    obtain ⟨i, hi, rfl⟩ := hi'
    exact ⟨i, hi, fun m o hdo => hinstr i ▸ hdo, fun m m' k => (hstep i m m' k).mp⟩
  · intro h
    apply h.transfer (List.length_map φ).symm
    intro pc i hi
    refine ⟨φ i, by rw [List.getElem?_map, hi]; rfl, fun m o hdo => ?_, fun m m' k => (hstep i m m' k).mpr⟩
    rw [hinstr i]
    exact hdo

end Env

namespace Program

variable {p q : Program} {set : TemplateSet} {m : Machine} {o : Outcome} {i i' : Instr}

/-- Whether an instruction is as it was, or is what a called template does in place of the call. -/
def Stitches (p : Program) (i i' : Instr) : Prop :=
  i' = i ∨ ∃ ns index target t chunk, i = .template ns index ∧
    p.tables.strings[index]? = some target ∧ p.templates[target]? = some t ∧
    t.code.toList = [.wb chunk] ∧ i' = .wb chunk

/-- Whether a program is another one in which some calls of trivial templates have been replaced. -/
structure IsStitching (p q : Program) (φ : String → Instr → Instr) : Prop where
  schema : q.schema = p.schema
  tables : q.tables = p.tables
  stitches : ∀ name i, p.Stitches i (φ name i)
  templates : ∀ name : String, q.templates[name]? =
    (p.templates[name]?).map fun t => { t with code := t.code.map (φ name) }

/-- Only calls are replaced by stitching. -/
theorem Stitches.of_ne (h : p.Stitches i i') (hnot : ∀ ns index, i ≠ .template ns index) : i' = i := by
  rcases h with hsame | ⟨ns, index, _, _, _, hi, -⟩
  · exact hsame
  · exact absurd hi (hnot ns index)

/-- Nothing that a call is replaced by jumps. -/
theorem Stitches.distance? {ns index : Nat} (h : p.Stitches (.template ns index) i') :
    i'.distance? = none := by
  rcases h with rfl | ⟨_, _, _, _, chunk, -, -, -, -, rfl⟩ <;> rfl

/-- Stitching replaces nothing but calls. -/
theorem IsStitching.fixes {φ : String → Instr → Instr} (h : p.IsStitching q φ) (name : String)
    (i : Instr) (hnot : ∀ ns index, i ≠ .template ns index) : φ name i = i :=
  (h.stitches name i).of_ne hnot

/-- A call that has been replaced could be replaced in the stitched program too. -/
theorem IsStitching.stitches_stitched {φ : String → Instr → Instr} (h : p.IsStitching q φ)
    (name : String) (i : Instr) : q.Stitches i (φ name i) := by
  rcases h.stitches name i with hsame | ⟨ns, index, target, t, chunk, hi, hname, ht, hcode, hwrite⟩
  · exact Or.inl hsame
  · refine Or.inr ⟨ns, index, target, { t with code := t.code.map (φ target) }, chunk, hi, ?_, ?_, ?_,
      hwrite⟩
    · rw [h.tables, hname]
    · rw [h.templates, ht, Option.map_some]
    · have hkept : φ target (.wb chunk) = .wb chunk := h.fixes target _ fun ns index => nofun
      rw [Array.toList_map, hcode, List.map_singleton, hkept]

/-- No template does nothing but call another one, because the data of a call has to be pushed. -/
theorem Behaves.ne_template (hp : p.Behaves set) {name : String} {t : CompiledTemplate}
    (ht : p.templates[name]? = some t) (ns index : Nat) : t.code.toList ≠ [.template ns index] := by
  intro hcode
  obtain ⟨names, hbehaves⟩ := hp.code name t ht
  rw [hcode] at hbehaves
  let env : Env := ⟨p.schema, p.tables, fun _ _ => Effect.skip⟩
  have hcareful := hbehaves.careful env (.refl _)
  rw [Env.runs_singleton rfl, Env.runs_singleton rfl] at hcareful
  have hrun : env.instr (.template ns index) (.fresh .unlimited .none)
      (.done (.fresh .unlimited .none)) := rfl
  rw [hcareful] at hrun
  exact hrun.2.1 rfl

/-- A program is stitched from itself if nothing is replaced. -/
theorem isStitching_refl (p : Program) : p.IsStitching p fun _ i => i where
  schema := rfl
  tables := rfl
  stitches _ _ := Or.inl rfl
  templates name := by
    cases p.templates[name]? <;> simp

/-- The body that a call may be replaced by is a single text. -/
theorem toList_eq_of_trivialBody? {t : CompiledTemplate} {i : Instr} (h : trivialBody? t = some i) :
    ∃ chunk, t.code.toList = [.wb chunk] ∧ i = .wb chunk := by
  unfold trivialBody? at h
  split at h
  · next chunk hcode =>
    cases h
    exact ⟨chunk, hcode, rfl⟩
  · cases h

/-- An instruction is stitched to what a trivial template does in place of its call. -/
theorem stitches_stitchInstr (p : Program) (i : Instr) : p.Stitches i (p.stitchInstr i) := by
  cases i with
  | template ns index =>
    simp only [stitchInstr]
    cases hbody : (do
      let target ← p.tables.strings[index]?
      let t ← p.templates[target]?
      trivialBody? t) with
    | none => exact Or.inl rfl
    | some j =>
      obtain ⟨target, hname, hbody⟩ := Option.bind_eq_some_iff.mp hbody
      obtain ⟨t, ht, hbody⟩ := Option.bind_eq_some_iff.mp hbody
      obtain ⟨chunk, hchunk, rfl⟩ := toList_eq_of_trivialBody? hbody
      exact Or.inr ⟨ns, index, target, t, chunk, rfl, hname, ht, hchunk, rfl⟩
  | _ => exact Or.inl rfl

/-- A single text is a body that a call may be replaced by. -/
theorem trivialBody?_of_toList {t : CompiledTemplate} {chunk : Nat} (h : t.code.toList = [.wb chunk]) :
    trivialBody? t = some (.wb chunk) := by
  simp only [trivialBody?, h]

/-- Stitching a template neither makes it trivial nor keeps it from being so: its code is not a lone
call, which is all that could become a chunk. -/
theorem IsStitching.trivialBody?_map {φ : String → Instr → Instr} (h : p.IsStitching q φ)
    (hp : p.Behaves set) {name : String} {t : CompiledTemplate} (ht : p.templates[name]? = some t) :
    trivialBody? { t with code := t.code.map (φ name) } = trivialBody? t := by
  have hkept (chunk : Nat) (hcode : t.code.toList.map (φ name) = [.wb chunk]) :
      t.code.toList = [.wb chunk] := by
    obtain ⟨i, hi, hstitched⟩ := List.map_eq_singleton_iff.mp hcode
    rcases h.stitches name i with hsame | ⟨ns, index, _, _, _, hcall, -⟩
    · rw [hi, ← hsame, hstitched]
    · exact absurd (hcall ▸ hi) (hp.ne_template ht ns index)
  cases hbody : trivialBody? t with
  | some i =>
    obtain ⟨chunk, hcode, rfl⟩ := toList_eq_of_trivialBody? hbody
    apply trivialBody?_of_toList
    have hfixed : φ name (.wb chunk) = .wb chunk := h.fixes name _ fun _ _ => nofun
    rw [Array.toList_map, hcode, List.map_singleton, hfixed]
  | none =>
    cases hstitched : trivialBody? { t with code := t.code.map (φ name) } with
    | none => rfl
    | some i =>
      obtain ⟨chunk, hcode, -⟩ := toList_eq_of_trivialBody? hstitched
      rw [Array.toList_map] at hcode
      rw [trivialBody?_of_toList (hkept chunk hcode)] at hbody
      cases hbody

/-- What becomes of an instruction does not depend on what has been stitched before. -/
theorem IsStitching.stitchInstr_eq {φ : String → Instr → Instr} (h : p.IsStitching q φ)
    (hp : p.Behaves set) (name : String) (i : Instr) : q.stitchInstr (φ name i) = p.stitchInstr i := by
  rcases h.stitches name i with hsame | ⟨ns, index, target, t, chunk, rfl, hname, ht, hcode, hwrite⟩
  · rw [hsame]
    cases i with
    | template ns index =>
      simp only [stitchInstr, h.tables, h.templates]
      cases p.tables.strings[index]? with
      | none => rfl
      | some target =>
        cases ht : p.templates[target]? with
        | none => simp [ht]
        | some t => simp [ht, h.trivialBody?_map hp ht]
    | _ => rfl
  · rw [hwrite]
    simp [stitchInstr, hname, ht, trivialBody?_of_toList hcode]

/-- What becomes of the instructions of a template once the named templates have been visited. -/
def visited (p : Program) (names : List String) (name : String) (i : Instr) : Instr :=
  if name ∈ names then p.stitchInstr i else i

/-- Visiting one more template stitches its code. -/
theorem IsStitching.stitchTemplate {names : List String} (h : p.IsStitching q (p.visited names))
    (hp : p.Behaves set) (name : String) :
    p.IsStitching (q.stitchTemplate name) (p.visited (name :: names)) := by
  have hstitches (name' : String) (i : Instr) : p.Stitches i (p.visited (name :: names) name' i) := by
    unfold visited
    split
    · exact p.stitches_stitchInstr i
    · exact Or.inl rfl
  have hother {name' : String} (hne : name' ≠ name) :
      p.visited (name :: names) name' = p.visited names name' := by
    funext i
    simp [visited, hne]
  have hself (i : Instr) : p.visited (name :: names) name i = q.stitchInstr (p.visited names name i) := by
    rw [h.stitchInstr_eq hp]
    exact if_pos List.mem_cons_self
  unfold Program.stitchTemplate
  split
  · next hnone =>
    refine ⟨h.schema, h.tables, hstitches, fun name' => ?_⟩
    by_cases hname : name' = name
    · rw [h.templates, Option.map_eq_none_iff] at hnone
      rw [hname, h.templates, hnone, Option.map_none, Option.map_none]
    · rw [h.templates, hother hname]
  · next u hu =>
    refine ⟨h.schema, h.tables, hstitches, fun name' => ?_⟩
    rw [Std.TreeMap.getElem?_insert]
    split
    · next heq =>
      obtain rfl := Std.compare_eq_iff_eq.mp heq
      rw [h.templates, Option.map_eq_some_iff] at hu
      obtain ⟨t, ht, rfl⟩ := hu
      simp only [ht, Option.map_some, Array.map_map, funext hself, Function.comp_def]
    · next hne =>
      rw [h.templates, hother fun heq => hne (Std.compare_eq_iff_eq.mpr heq.symm)]

/-- Stitching replaces calls in the templates that are visited, in whatever order. -/
theorem isStitching_stitchIn (hp : p.Behaves set) (names : List String) :
    p.IsStitching (p.stitchIn names) (p.visited names.reverse) := by
  have hfold (names done : List String) (q : Program) (hq : p.IsStitching q (p.visited done)) :
      p.IsStitching (names.foldl Program.stitchTemplate q) (p.visited (names.reverse ++ done)) := by
    induction names generalizing q done with
    | nil => exact hq
    | cons name names ih =>
      rw [List.reverse_cons, List.append_assoc]
      exact ih (name :: done) _ (hq.stitchTemplate hp name)
  have hnone : p.visited [] = fun _ i => i := by
    funext name i
    simp [visited]
  have hall := hfold names [] p (hnone ▸ p.isStitching_refl)
  rwa [List.append_nil] at hall

/-- Stitching gives a program in which some calls of trivial templates have been replaced. -/
theorem exists_isStitching_stitch (hp : p.Behaves set) : ∃ φ, p.IsStitching p.stitch φ :=
  ⟨_, isStitching_stitchIn hp p.templateNames⟩

/-! ### Stitching changes nothing -/

/-- Writing a chunk in a callee is writing it in the caller. -/
theorem outcome?_wb_activate (schema : Schema) (t : Tables) (ns : String) (v : Value) (chunk : Nat) :
    ((m.activate ns v).step schema t (.wb chunk)).outcome?.map (Outcome.map m.leave) =
      (m.step schema t (.wb chunk)).outcome? := by
  obtain ⟨own, hown⟩ := Machine.activate_eq ns v m
  rw [hown]
  simp only [Machine.step]
  cases t.chunks[chunk]? with
  | none => rfl
  | some bytes =>
    simp only [Machine.write]
    split
    · simp only [Step.outcome?, Option.map_some, Outcome.map_done, Machine.leave, keepBottom_append]
    · rfl

/-- Calling a trivial template writes its chunk. -/
theorem call_trivial {ns index chunk : Nat} {target : String} {t : CompiledTemplate}
    (hnames : p.env.Names set ns index) (hdata : m.stack ≠ [])
    (hname : p.tables.strings[index]? = some target) (ht : p.templates[target]? = some t)
    (hcode : t.code.toList = [.wb chunk]) :
    p.call ns index m o ↔ p.env.instr (.wb chunk) m o := by
  obtain ⟨v, stack, hstack⟩ := List.exists_cons_of_ne_nil hdata
  have hv : m.stack.head? = some v := by rw [hstack, List.head?_cons]
  obtain ⟨nsName, hns⟩ : ∃ nsName, p.tables.strings[ns]? = some nsName :=
    ⟨_, Array.getElem?_eq_getElem hnames.ns⟩
  rw [call_eq, enter_eq hns hname ht hv, hcode, Env.runs_singleton rfl]
  have hwrite := outcome?_wb_activate p.schema p.tables nsName v chunk (m := m)
  simp only [Env.instr, env, ← hwrite, Option.map_eq_some_iff, Effect.called]

variable {φ : String → Instr → Instr}

/-- Stitched code runs like the code with the calls that it stands for. -/
theorem IsStitching.runs_calling (h : p.IsStitching q φ) (env : Env) (name : String)
    (code : List Instr) : env.Runs (code.map (φ name)) = (env.calling (φ name)).Runs code :=
  env.runsFrom_map code 0 (h.fixes name) fun ns index => (h.stitches name (.template ns index)).distance?

/-- What the code of a template does follows from what its calls do. -/
theorem runs_of_careful (env env' : Env) {code : List Instr} {names : List Nat}
    (hcode : Stencil.Behaves set p.tables code names) (hschema : env.schema = env'.schema)
    (htables : env.tables = p.tables) (htables' : env'.tables = p.tables)
    (hcalls : ∀ ns index m o, p.env.Names set ns index → m.stack ≠ [] → env.call ns index m o →
      env'.call ns index m o) (hrun : env.Runs code m o) : env'.Runs code m o := by
  rw [hcode.careful env (htables ▸ .refl _)] at hrun
  apply hrun.mono env' hschema (htables.trans htables'.symm)
  intro ns index m o hcall
  obtain ⟨⟨hns, hname⟩, hdata, hcall⟩ := hcall
  rw [htables] at hns hname
  exact hcalls ns index m o ⟨hns, hname⟩ hdata hcall

/-- A call runs the stitched code of its target. -/
theorem IsStitching.exists_target (h : p.IsStitching q φ) (hp : p.Behaves set) {ns index : Nat}
    (hnames : p.env.Names set ns index) (hdata : m.stack ≠ []) :
    ∃ target t names nsName v, Stencil.Behaves set p.tables t.code.toList names ∧
      (∀ run o, p.enter run ns index m o ↔ (run target t).called nsName v m o) ∧
      ∀ run o, q.enter run ns index m o ↔
        (run target { t with code := t.code.map (φ target) }).called nsName v m o := by
  obtain ⟨hns, target, hname, hcontains⟩ := hnames
  obtain ⟨v, stack, hstack⟩ := List.exists_cons_of_ne_nil hdata
  have hv : m.stack.head? = some v := by rw [hstack, List.head?_cons]
  obtain ⟨t, ht⟩ := hp.exists_template target hcontains
  obtain ⟨names, hbehaves⟩ := hp.code target t ht
  obtain ⟨nsName, hns⟩ : ∃ nsName, p.tables.strings[ns]? = some nsName :=
    ⟨_, Array.getElem?_eq_getElem hns⟩
  refine ⟨target, t, names, nsName, v, hbehaves, fun run o => enter_eq hns hname ht hv,
    fun run o => ?_⟩
  have hname : p.tables.strings[index]? = some target := hname
  rw [← h.tables] at hns hname
  exact enter_eq hns hname (by rw [h.templates, ht, Option.map_some]) hv

/-- A call either stays a call, or it is replaced by what it does. -/
theorem IsStitching.instr_call (h : p.IsStitching q φ) (env : Env) (hschema : env.schema = p.schema)
    (htables : env.tables = p.tables) (name : String) {ns index : Nat}
    (hnames : p.env.Names set ns index) (hdata : m.stack ≠ []) :
    (∀ o, env.instr (φ name (.template ns index)) m o ↔ env.call ns index m o) ∨
      ∀ o, env.instr (φ name (.template ns index)) m o ↔ p.call ns index m o := by
  rcases h.stitches name (.template ns index) with hsame |
    ⟨_, _, target, t, chunk, hi, hname, ht, hcode, hsame⟩
  · rw [hsame]
    exact Or.inl fun o => Iff.rfl
  · cases hi
    apply Or.inr
    intro o
    rw [hsame, call_trivial hnames hdata hname ht hcode]
    simp only [Env.instr, hschema, htables]
    exact Iff.rfl

/-- Calls do the same in the stitched program. -/
theorem IsStitching.call_iff (h : p.IsStitching q φ) (hp : p.Behaves set) {ns index : Nat}
    (hnames : p.env.Names set ns index) (hdata : m.stack ≠ []) :
    q.call ns index m o ↔ p.call ns index m o := by
  constructor
  · rw [call_iff_exists_level]
    rintro ⟨n, hcall⟩
    induction n generalizing ns index m o with
    | zero => exact hcall.elim
    | succ n ih =>
      obtain ⟨target, t, names, nsName, v, hbehaves, hp', hq⟩ := h.exists_target hp hnames hdata
      obtain ⟨r, hrun, ho⟩ := (hq _ o).mp hcall
      have hschema := (q.schema_level n).trans h.schema
      have htables := (q.tables_level n).trans h.tables
      rw [call_eq]
      refine (hp' _ o).mpr ⟨r, ?_, ho⟩
      rw [Array.toList_map, h.runs_calling] at hrun
      refine runs_of_careful ((q.level n).calling (φ target)) p.env hbehaves hschema htables rfl
        (fun ns index m o hnames hdata hcall => ?_) hrun
      rcases h.instr_call (q.level n) hschema htables target hnames hdata with hkept | hreplaced
      · exact ih hnames hdata ((hkept o).mp hcall)
      · exact (hreplaced o).mp hcall
  · rw [call_iff_exists_level]
    rintro ⟨n, hcall⟩
    induction n generalizing ns index m o with
    | zero => exact hcall.elim
    | succ n ih =>
      obtain ⟨target, t, names, nsName, v, hbehaves, hp', hq⟩ := h.exists_target hp hnames hdata
      obtain ⟨r, hrun, ho⟩ := (hp' _ o).mp hcall
      rw [call_eq]
      refine (hq _ o).mpr ⟨r, ?_, ho⟩
      rw [Array.toList_map, h.runs_calling]
      refine runs_of_careful (p.level n) (q.env.calling (φ target)) hbehaves
        ((p.schema_level n).trans h.schema.symm) (p.tables_level n) h.tables
        (fun ns index m o hnames hdata hcall => ?_) hrun
      rcases h.instr_call q.env h.schema h.tables target hnames hdata with hkept | hreplaced
      · exact (hkept o).mpr (ih hnames hdata hcall)
      · exact (hreplaced o).mpr (call_of_level ns index m o hcall)

/-- Stitched code does the same in the stitched program. -/
theorem IsStitching.runs_map (h : p.IsStitching q φ) (hp : p.Behaves set) {code : List Instr}
    {names : List Nat} (hcode : Stencil.Behaves set p.tables code names) (name : String) :
    q.env.Runs (code.map (φ name)) = p.env.Runs code := by
  rw [h.runs_calling]
  have hsame {ns index : Nat} {m : Machine} {o : Outcome} (hnames : p.env.Names set ns index)
      (hdata : m.stack ≠ []) :
      (q.env.calling (φ name)).call ns index m o ↔ p.call ns index m o := by
    rcases h.instr_call q.env h.schema h.tables name hnames hdata with hkept | hreplaced
    · exact (hkept o).trans (h.call_iff hp hnames hdata)
    · exact hreplaced o
  funext m o
  apply propext
  constructor
  · exact runs_of_careful _ _ hcode h.schema h.tables rfl fun ns index m o hnames hdata hcall =>
      (hsame hnames hdata).mp hcall
  · exact runs_of_careful _ _ hcode h.schema.symm rfl h.tables fun ns index m o hnames hdata hcall =>
      (hsame hnames hdata).mpr hcall

end Program
end Stencil
