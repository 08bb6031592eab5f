import Stencil.Proofs.Attribution

/-!
# Positions of operands

Where a runtime error is reported that an instruction of an operand raises. It is at the position of the
operand, with one exception: the first instruction of an operand whose code begins right where an entry
of the table of its template ends is looked up as a part of what has ended there.
-/

namespace Stencil

namespace Fragment

variable {f : Fragment} {a : Span} {pc : Nat} {marks : Array Mark}

/-- The position of the first entry at an offset, which is that of code that ends right there. -/
def entryAt? (marks : Array Mark) (pc : Nat) : Option Pos :=
  (marks.find? fun m => m.pc == pc).map Mark.pos

/-- In a table that is in order, the first entry at an offset or behind it is one at the offset, if there
is any, or else the first one behind it. -/
theorem find?_le_of_sorted {l : List Mark} (h : l.Pairwise (·.pc ≤ ·.pc)) (pc : Nat) :
    l.find? (fun m => pc ≤ m.pc) = (l.find? fun m => m.pc == pc).or (l.find? fun m => pc < m.pc) := by
  induction l with
  | nil => rfl
  | cons m l ih =>
    obtain ⟨hfirst, hrest⟩ := List.pairwise_cons.mp h
    rcases Nat.lt_trichotomy m.pc pc with hlt | heq | hgt
    · have hle : ¬pc ≤ m.pc := by omega
      have hne : ¬m.pc = pc := by omega
      have hge : ¬pc < m.pc := by omega
      simp only [List.find?_cons, decide_eq_false hle, beq_eq_false_iff_ne.mpr hne, decide_eq_false hge]
      exact ih hrest
    · simp [heq]
    · have hnone : (m :: l).find? (fun m => m.pc == pc) = none := by
        rw [List.find?_eq_none]
        intro m' hm'
        have hle : m.pc ≤ m'.pc := by
          rcases List.mem_cons.mp hm' with rfl | hm'
          · exact Nat.le_refl _
          · exact hfirst m' hm'
        simp
        omega
      rw [hnone]
      simp [hgt, Nat.le_of_lt hgt]

/-- An instruction is located at the entry that ends at it, or else at its own node. -/
theorem positionOf_eq (hf : f.Tidy) (h : f.Locates a pc) :
    positionOf f.marks pc = some ((entryAt? f.marks pc).getD a.pos) := by
  have hfind : f.marks.find? (fun m => pc ≤ m.pc) =
      (f.marks.find? fun m => m.pc == pc).or (f.marks.find? fun m => pc < m.pc) := by
    simpa using find?_le_of_sorted hf.sorted pc
  have hnext := h.next
  unfold positionOf entryAt?
  rw [hfind]
  cases f.marks.find? (fun m => m.pc == pc) with
  | none => simpa using hnext
  | some m => rfl

/-- No entry ends inside the code of a node behind its start. -/
theorem entryAt?_eq_none (h : f.Locates a pc) (hlater : a.start < pc) : entryAt? f.marks pc = none := by
  unfold entryAt?
  rw [Option.map_eq_none_iff, Array.find?_eq_none]
  intro m hm
  simpa using h.alone hlater m hm

/-- Replaced calls do not matter for the instructions of operands. -/
theorem Locates.map {φ : Instr → Instr} (h : f.Locates a pc) (hφ : Instr.Replacing φ) :
    Locates ⟨f.code.map φ, f.marks⟩ a pc where
  instr := by
    obtain ⟨i, hi, hstraight⟩ := h.instr
    have hkept : φ i = i := hφ.fixes fun ns index heq => by
      rw [heq] at hstraight
      cases hstraight
    exact ⟨i, by rw [Array.getElem?_map, hi, Option.map_some, hkept], hstraight⟩
  next := h.next
  alone := h.alone

end Fragment

/-- The code and the table of a compiled template. -/
def CompiledTemplate.fragment (u : CompiledTemplate) : Fragment := ⟨u.code, u.marks⟩

namespace Compile

open Fragment (Attributed entryAt? positionOf)

variable {c : Context} {s : State} {set : TemplateSet} {registry : Registry}
  {options : CompileOptions} {schema : Schema} {p p' : Program} {name : String} {u : CompiledTemplate}

/-- All instructions of a template are attributed to its operands. -/
theorem yields_attributed_template (tree : Tree) :
    Yields (template c tree) s fun u _ =>
      Attributed (Node.allSpans c .empty ⟨s.tables, false, []⟩ tree.root.nodes) .empty u.fragment :=
  yields_modify_bind (.bind (yields_attributed_nodes tree.root.nodes .empty _) fun _ _ hg =>
    yields_pure (hg.mark tree.root.pos))

/-- The table of each template attributes the operands of its tree. -/
theorem addTemplates_attributed {entries : List (String × Tree)}
    (hdistinct : (entries.map Prod.fst).Nodup) (hnone : p.templates[name]? = none)
    (h : addTemplates set registry options p entries = .ok p') (hu : p'.templates[name]? = some u) :
    Attributed (set.spansFrom registry options p name entries) .empty u.fragment := by
  induction entries generalizing p with
  | nil =>
    cases h
    rw [hnone] at hu
    cases hu
  | cons entry rest ih =>
    obtain ⟨caller, tree⟩ := entry
    obtain ⟨hfirst, hdistinct⟩ := List.nodup_cons.mp hdistinct
    obtain ⟨v, s, hrun, hadd, hrest⟩ := addTemplates_cons_eq_ok h
    unfold TemplateSet.spansFrom
    split
    · next heq =>
      subst heq
      have hkept := addTemplates_kept hrest hfirst
      rw [hu, Std.TreeMap.getElem?_insert_self] at hkept
      cases hkept
      exact yields_attributed_template tree _ _ hrun
    · next hne =>
      rw [hadd]
      refine ih hdistinct ?_ hrest
      rw [Std.TreeMap.getElem?_insert, if_neg fun heq => hne (Std.compare_eq_iff_eq.mp heq), hnone]

/-- Every instruction that a template has for an operand is looked up as one of the operand at the offset
behind it. At its own offset it is looked up so too, unless an entry ends there, which then takes its
place; that can only be so for the first instruction of the operand. An error that the instruction raises
is reported at the position that is found. -/
theorem operands_are_located (hcompile : compile schema registry options set = .ok p)
    (hu : p.templates[name]? = some u) :
    ∀ a ∈ set.spans schema registry options name, ∀ pc, a.start ≤ pc → pc < a.stop →
      ∃ i, u.code[pc]? = some i ∧ i.isStraight ∧
        positionOf u.marks (pc + 1) = some a.pos ∧
        positionOf u.marks pc = some ((entryAt? u.marks pc).getD a.pos) ∧
        (a.start < pc → entryAt? u.marks pc = none) ∧
        ∀ (fuel : Nat) (m m' : Machine) (e : RuntimeError), m.step p.schema p.tables i = .fail e m' →
          p.runFrom (fuel + 1) name u pc m =
            .failed ⟨e, some (.ofOffset name ((entryAt? u.marks pc).getD a.pos) u.source)⟩ m' := by
  obtain ⟨q, hadd, -, hstitched⟩ := exists_stitched hcompile
  obtain ⟨φ, hφ, htemplate⟩ := hstitched name
  rw [hu] at htemplate
  obtain ⟨v, hv, rfl⟩ := Option.map_eq_some_iff.mp htemplate.symm
  have hattributed := addTemplates_attributed (nodup_names set) Std.TreeMap.getElem?_emptyc hadd hv
  have hempty : Fragment.empty.Tidy := Fragment.tidy_ofCode #[]
  intro a ha pc hstart hstop
  have hlocates := hattributed.attributes hempty a ha pc hstart hstop
  have hfound : positionOf v.marks pc = some ((entryAt? v.marks pc).getD a.pos) :=
    Fragment.positionOf_eq (hattributed.tidy hempty) hlocates
  obtain ⟨i, hi, hstraight⟩ := (hlocates.map hφ).instr
  refine ⟨i, hi, hstraight, hlocates.next, hfound, Fragment.entryAt?_eq_none hlocates,
    fun fuel m m' e hstep => ?_⟩
  have hlocate : CompiledTemplate.locate { v with code := v.code.map φ } name pc =
      some (.ofOffset name ((entryAt? v.marks pc).getD a.pos) v.source) := by
    simp only [CompiledTemplate.locate, hfound, Option.map_some]
  have hnot : ∀ ns index, i ≠ .template ns index := fun ns index heq => by
    rw [heq] at hstraight
    cases hstraight
  rw [Program.runFrom_of_step hi hnot, hstep]
  simp only [hlocate]

end Compile

/-! ### Samples -/

namespace Sample

/-- `x{{$y}}`, where `$y` is not declared. -/
def undeclared : TemplateSet :=
  .ofRoot ⟨"main", ⟨0, [.text 0 "x", .action 1 (.mk 3 false [] [.mk 3 [.var ⟨3, ["$y"]⟩]])]⟩,
    some "x\x7b\x7b$y\x7d\x7d"⟩

/-- In the code of the sample an entry for the text ends where the variable is read, which fails. -/
theorem exists_undeclared : ∃ p u index m,
    Compile.compile .plain .empty .standard undeclared = .ok p ∧ p.templates["main"]? = some u ∧
    u.code[1]? = some (.var index) ∧ Fragment.entryAt? u.marks 1 = some 0 ∧
    Fragment.positionOf u.marks 1 = some 0 ∧
    p.run 10 "main" .nil .nil (.fresh .unlimited .none) =
      .failed ⟨.undefinedVariable "y", some ⟨"main", 0, some (1, 0)⟩⟩ m := by
  obtain ⟨p, hp⟩ : ∃ p, Compile.compile .plain .empty .standard undeclared = .ok p :=
    Compile.exists_of_isOk (by decide +kernel)
  have hall : (Compile.compile .plain .empty .standard undeclared).toOption.all fun p =>
      p.templates["main"]?.any fun u => u.code[1]?.any fun
        | .var _ => Fragment.entryAt? u.marks 1 == some 0 && Fragment.positionOf u.marks 1 == some 0
        | _ => false := by
    decide +kernel
  have hrun : (Compile.compile .plain .empty .standard undeclared).toOption.all fun p =>
      match p.run 10 "main" .nil .nil (.fresh .unlimited .none) with
      | .failed e _ => e == ⟨.undefinedVariable "y", some ⟨"main", 0, some (1, 0)⟩⟩
      | _ => false := by
    decide +kernel
  rw [hp] at hall hrun
  simp only [Except.toOption, Option.all_some, Option.any_eq_true] at hall hrun
  obtain ⟨u, hu, i, hi, hentry⟩ := hall
  split at hentry
  · next index =>
    rw [Bool.and_eq_true, beq_iff_eq, beq_iff_eq] at hentry
    split at hrun
    · next e m heq =>
      rw [beq_iff_eq.mp hrun] at heq
      exact ⟨p, u, index, m, hp, hu, hi, hentry.1, hentry.2, heq⟩
    · cases hrun
  · cases hentry

end Sample

namespace Compile

open Fragment (positionOf)

/-- In the sample the offset behind the reading of the variable is looked up as the variable, and its own
offset as the text in front of it. -/
theorem operands_are_located_sample :
    ∃ p u i, compile .plain .empty .standard Sample.undeclared = .ok p ∧
      p.templates["main"]? = some u ∧
      ⟨1, 2, 3⟩ ∈ Sample.undeclared.spans .plain .empty .standard "main" ∧
      u.code[1]? = some i ∧ i.isStraight ∧ positionOf u.marks 2 = some 3 ∧
      positionOf u.marks 1 = some 0 := by
  obtain ⟨p, u, index, m, hp, hu, hcode, hentry, -⟩ := Sample.exists_undeclared
  have hspan : ⟨1, 2, 3⟩ ∈ Sample.undeclared.spans .plain .empty .standard "main" := by decide +kernel
  obtain ⟨i, hi, hstraight, hbehind, hat, -⟩ :=
    operands_are_located hp hu ⟨1, 2, 3⟩ hspan 1 (by decide) (by decide)
  rw [hentry] at hat
  exact ⟨p, u, i, hp, hu, hspan, hi, hstraight, hbehind, hat⟩

/-- The only operand of the sample is the variable, and the error for it is reported at the text in front
of it. -/
theorem operand_is_misplaced :
    ∃ p u index m, compile .plain .empty .standard Sample.undeclared = .ok p ∧
      p.templates["main"]? = some u ∧
      Sample.undeclared.spans .plain .empty .standard "main" = [⟨1, 2, 3⟩] ∧
      u.code[1]? = some (.var index) ∧ positionOf u.marks 1 ≠ some 3 ∧
      p.run 10 "main" .nil .nil (.fresh .unlimited .none) =
        .failed ⟨.undefinedVariable "y", some ⟨"main", 0, some (1, 0)⟩⟩ m := by
  obtain ⟨p, u, index, m, hp, hu, hcode, -, hposition, hrun⟩ := Sample.exists_undeclared
  have hspans : Sample.undeclared.spans .plain .empty .standard "main" = [⟨1, 2, 3⟩] := by
    decide +kernel
  exact ⟨p, u, index, m, hp, hu, hspans, hcode, by rw [hposition]; decide, hrun⟩

end Compile
end Stencil
