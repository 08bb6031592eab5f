import Stencil.Proofs.Programs

/-!
# Safety of compiled programs

A well-formed set is never refused for a lack of balance, and its program never runs into malformed
code: a run that ends leaves the stacks as it found them, and a run that fails can blame the template
or its data.
-/

namespace Stencil

namespace Compile

variable {schema : Schema} {registry : Registry} {options : CompileOptions} {set : TemplateSet}
  {p q : Program}

/-- The templates of a stitched program leave the stacks as they were too. -/
theorem Compiled.exists_neutral {φ : String → Instr → Instr}
    (hq : Compiled schema registry options set q) (hφ : q.IsStitching p φ) {name : String}
    (hname : set.contains name) :
    ∃ t names, p.templates[name]? = some t ∧ (p.env.Runs t.code.toList).Neutral names := by
  obtain ⟨u, hu⟩ := hq.behaves.exists_template name hname
  obtain ⟨names, hbehaves⟩ := hq.behaves.code name u hu
  refine ⟨_, names, by rw [hφ.templates, hu, Option.map_some], ?_⟩
  rw [Array.toList_map, hφ.runs_map hq.behaves hbehaves]
  exact Program.neutral_runs hq.behaves hbehaves

/-- An activation starts with the stacks of its caller. -/
theorem frame_start (vars data : Value) (m : Machine) :
    ((m.bind Tables.varsVar vars).activate "" data).frame = m.frame := rfl

/-- Ordinary errors are those that are neither about malformed code nor about a missing template. -/
theorem ordinary_iff {e : RuntimeError} : e.Ordinary ↔
    (∀ reason, e ≠ .invalidCode reason) ∧ ∀ target, e ≠ .undefinedTemplate target := by
  cases e <;> simp [RuntimeError.Ordinary]

/-- Compiling a well-formed set never fails for a lack of balance. No run of a template of the compiled
program fails because of malformed code or an unknown template, and a run that ends leaves the operands,
the marks, the dots and the iterators as it found them. -/
theorem compiled_code_is_safe (hwf : set.wellFormed) :
    (∀ e, compile schema registry options set = .error e → ∀ effect, e.kind ≠ .unbalanced effect) ∧
    ∀ p, compile schema registry options set = .ok p → ∀ name, set.contains name →
      ∀ (fuel : Nat) (data vars : Value) (m : Machine),
        (∀ e m', p.run fuel name data vars m = .failed e m' →
          (∀ reason, e.kind ≠ .invalidCode reason) ∧ ∀ target, e.kind ≠ .undefinedTemplate target) ∧
        ∀ m', p.run fuel name data vars m = .done m' →
          m'.stack = m.stack ∧ m'.marks = m.marks ∧ m'.dots = m.dots ∧
            m'.iterations = m.iterations := by
  refine ⟨fun _ he => compile_balanced hwf he, fun p hp name hname fuel data vars m => ?_⟩
  obtain ⟨q, φ, -, hq, hφ⟩ := exists_compiled hwf hp
  obtain ⟨t, names, ht, hneutral⟩ := hq.exists_neutral hφ hname
  have hruns {o : Outcome} (hrun : (p.run fuel name data vars m).outcome? = some o) :
      p.env.Runs t.code.toList ((m.bind Tables.varsVar vars).activate "" data) o :=
    (Program.renders_iff ht).mp ⟨fuel, hrun⟩
  constructor
  · intro e m' hrun
    exact ordinary_iff.mp (hneutral.ordinary (hruns (by rw [hrun]; rfl)))
  · intro m' hrun
    have hruns : p.env.Runs t.code.toList _ (.done m') := hruns (by rw [hrun]; rfl)
    have hframe : m'.frame = m.frame := (hneutral.frame hruns).trans (frame_start vars data m)
    exact ⟨congrArg Frame.stack hframe, congrArg Frame.marks hframe, congrArg Frame.dots hframe,
      congrArg Frame.iterations hframe⟩

/-- A run of the sample set on a machine with values on its stacks ends. -/
theorem exists_run_sample :
    ∃ p m', compile .plain .empty .standard Sample.set = .ok p ∧
      p.run 100 "main" (.seq [.int 0, .int 5]) .nil
        { Machine.fresh .unlimited .none with stack := [.bool true], dots := [.nil] } = .done m' := by
  have hdone : (match compile .plain .empty .standard Sample.set with
      | .error _ => false
      | .ok p =>
        match p.run 100 "main" (.seq [.int 0, .int 5]) .nil
          { Machine.fresh .unlimited .none with stack := [.bool true], dots := [.nil] } with
        | .done _ => true
        | _ => false) = true := by decide +kernel
  split at hdone
  · cases hdone
  · next p hp =>
    split at hdone
    · next m' hm' => exact ⟨p, m', hp, hm'⟩
    · cases hdone

/-- The sample set leaves the values on the stacks of its machine alone. -/
theorem compiled_code_is_safe_sample :
    Sample.set.wellFormed ∧ Sample.set.contains "main" ∧
      ∃ p m', compile .plain .empty .standard Sample.set = .ok p ∧
        p.run 100 "main" (.seq [.int 0, .int 5]) .nil
          { Machine.fresh .unlimited .none with stack := [.bool true], dots := [.nil] } = .done m' ∧
        m'.stack = [.bool true] ∧ m'.marks = [] ∧ m'.dots = [.nil] ∧ m'.iterations = [] := by
  have hname : Sample.set.contains "main" := by decide +kernel
  obtain ⟨p, m', hp, hrun⟩ := exists_run_sample
  have hsafe := (compiled_code_is_safe Sample.wellFormed_set).2 p hp "main" hname 100
    (.seq [.int 0, .int 5]) .nil
    { Machine.fresh .unlimited .none with stack := [.bool true], dots := [.nil] }
  exact ⟨Sample.wellFormed_set, hname, p, m', hp, hrun, hsafe.2 m' hrun⟩

end Compile
end Stencil
