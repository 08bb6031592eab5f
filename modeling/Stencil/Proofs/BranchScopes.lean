import Stencil.Proofs.Points
import Stencil.Proofs.Sites

/-!
# Scopes of branches

What the branches of a well-formed set do to the variables. A branch leaves behind the variables that
the pipelines in the parentheses of its condition declare, and no others; the variables of its header
and of its bodies are gone, whatever they shadow. The bindings in front of it keep their values unless
they are assigned. Each variable that is removed is the innermost one.
-/

namespace Stencil

/-- Whether a run from a point assigns the binding in a place. -/
def Program.Assigns (p : Program) (start : Point) (k : Nat) : Prop :=
  ∃ P name, p.Reaches start P ∧ P.code[P.pc]? = some (.setVar name true) ∧
    Bindings.place? name P.machine.bindings = some k

namespace Compile

variable {schema : Schema} {registry : Registry} {options : CompileOptions} {set : TemplateSet}
  {p : Program}

/-- The templates of a well-formed set are lexically scoped. -/
theorem isLexical_of_wellFormed (hwf : set.wellFormed)
    (hcompile : compile schema registry options set = .ok p) : p.IsLexical := by
  refine isLexical_of_compile hcompile fun name tree htree => ?_
  exact Node.allBindElements_of_wellFormed _ (wellFormed_of_mem hwf (mem_toList_iff.mpr htree))

/-- The variables that the condition of a branch declares are those in its parentheses, in their
order. -/
theorem Site.Scoped.names {c : Context} {k : Nat} {kind : BranchKind} {pos : Pos} {pipe : Pipeline}
    {body : Block Node} {orElse : Option (Block Node)} {S : Site c p k kind pos pipe body orElse}
    (hS : S.Scoped) :
    (declaredBy S.condition).reverse.map (p.tables.strings[·]?) =
      (declaredNames pipe.innerBindings).map some := hS.binds.names_declaredBy

/-- Every branch of a well-formed set has a site, and a run that gets through it there finds the variables
behind it that there were in front of it, and those that are declared in the parentheses of its condition
in the order of their evaluation. A binding in front of it has its value unless it has been assigned. No
run of the set ever fails to remove a variable. -/
theorem branches_are_lexically_scoped (hwf : set.wellFormed)
    (hcompile : compile schema registry options set = .ok p) :
    (∀ name tree k kind pos pipe body orElse, set.get? name = some tree →
      (Node.allInside tree.root.nodes)[k]? = some (.branch kind pos pipe body orElse) →
      Nonempty (Site ⟨set, registry, options, schema, name, tree.source⟩ p k kind pos pipe body orElse) ∧
      ∀ S : Site ⟨set, registry, options, schema, name, tree.source⟩ p k kind pos pipe body orElse,
        p.RunsFrom name S.template S.start =
          (p.env.Runs S.instrs).andThen (p.RunsFrom name S.template S.stop) ∧
        ∀ m m', p.env.Runs S.instrs m (.done m') →
          (∃ declared, declared.map (p.tables.strings[·]?) =
              (declaredNames pipe.innerBindings).map some ∧
            m'.names.reverse = m.names.reverse ++ declared) ∧
          ∀ k b, m.bindings.reverse[k]? = some b → ¬p.Assigns ⟨[name], S.instrs, 0, m⟩ k →
            m'.bindings.reverse[k]? = some b) ∧
    ∀ name u data vars m P x, p.templates[name]? = some u →
      p.Reaches (Program.startPoint name u data vars m) P → P.code[P.pc]? = some (.unsetVar x) →
      ∃ m', P.machine.step p.schema p.tables (.unsetVar x) = .next m' := by
  have hp := isLexical_of_wellFormed hwf hcompile
  constructor
  · intro name tree k kind pos pipe body orElse htree hnode
    refine ⟨nonempty_site hwf hcompile htree hnode, fun S => ?_⟩
    obtain ⟨hS, hscoped⟩ := S.sound_scoped hwf hcompile htree
    refine ⟨hS.runsFrom_start, fun m m' hrun => ?_⟩
    have honly : p.AssignsOnly (fun k _ => p.Assigns ⟨[name], S.instrs, 0, m⟩ k)
        ⟨[name], S.instrs, 0, m⟩ := fun P hP name hi k hk => ⟨P, name, hP, hi, hk⟩
    have hkeeps := Program.keeps_runs hp hscoped.lexical honly hrun
    refine ⟨⟨(declaredBy S.condition).reverse, hscoped.names, ?_⟩, hkeeps.values⟩
    have hnames : m'.names = declaredBy S.condition ++ m.names := hkeeps.names
    rw [hnames, List.reverse_append]
  · intro name u data vars m P x hu hreach hi
    obtain ⟨names, hcode⟩ := hp name u hu
    obtain ⟨bindings, hstep⟩ := hreach.step_unsetVar hp hcode rfl hi
    exact ⟨_, hstep⟩

end Compile

namespace Sample

/-- A branch that shadows the variable of its condition: `{{if ($x := .)}}{{$x := .}}{{end}}`. -/
def shadow : Node :=
  .branch .ifThen 0 (.mk 0 false [] [.mk 0 [.paren (dotPipe ["$x"])]])
    ⟨0, [.action 0 (dotPipe ["$x"])]⟩ none

/-- A set of one template with a variable that shadows another one. -/
def shadowSet : TemplateSet := .ofRoot ⟨"main", ⟨0, [shadow]⟩, none⟩

end Sample

namespace Compile

/-- Of the two variables of the sample, the one of the condition is left. -/
theorem branches_are_lexically_scoped_sample :
    Sample.shadowSet.wellFormed ∧
      ∃ p, compile .plain .empty .standard Sample.shadowSet = .ok p ∧
        ∃ S : Site ⟨Sample.shadowSet, .empty, .standard, .plain, "main", none⟩ p 0 .ifThen 0
            (.mk 0 false [] [.mk 0 [.paren (Sample.dotPipe ["$x"])]])
            ⟨0, [.action 0 (Sample.dotPipe ["$x"])]⟩ none,
          ∀ m m', p.env.Runs S.instrs m (.done m') → ∃ x, p.tables.strings[x]? = some "x" ∧
            m'.names.reverse = m.names.reverse ++ [x] := by
  have hwf : Sample.shadowSet.wellFormed := by decide +kernel
  obtain ⟨p, hp⟩ : ∃ p, compile .plain .empty .standard Sample.shadowSet = .ok p :=
    exists_of_isOk (by decide +kernel)
  have hget : Sample.shadowSet.get? "main" = some ⟨"main", ⟨0, [Sample.shadow]⟩, none⟩ := rfl
  obtain ⟨⟨S⟩, hS⟩ := (branches_are_lexically_scoped hwf hp).1 "main" _ 0 _ _ _ _ _ hget rfl
  refine ⟨hwf, p, hp, S, fun m m' hrun => ?_⟩
  obtain ⟨⟨declared, hdeclared, hnames⟩, -⟩ := (hS S).2 m m' hrun
  have hx : declared.map (p.tables.strings[·]?) = [some "x"] := hdeclared
  obtain ⟨x, rfl, hname⟩ := List.map_eq_singleton_iff.mp hx
  exact ⟨x, hname, hnames⟩

end Compile
end Stencil
