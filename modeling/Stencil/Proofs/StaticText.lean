import Stencil.Proofs.Folding
import Stencil.Proofs.ActionSites
import Stencil.Proofs.Pieces
import Stencil.Proofs.Sites

/-!
# Static text

What the text nodes of a template write. A run that gets to a text writes its bytes, in every set that
can be compiled and on every machine, but for one newline in front of an element of an HTML template.
The newline is left out if no code is in front of the text in its piece of the template, which is also
so at the start of the body of a branch and behind actions that are compiled to no code.
-/

namespace Stencil

mutual

/-- Whether a node is a comment, an empty text or a list of such nodes. -/
def Node.isBlank : Node → Bool
  | .comment .. => true
  | .text _ str => str.isEmpty
  | .list ⟨_, ns⟩ => Node.allBlank ns
  | _ => false

/-- Whether nodes are comments and empty texts. -/
def Node.allBlank : List Node → Bool
  | [] => true
  | n :: rest => n.isBlank && Node.allBlank rest

end

/-- What is written of a text: all of it, but for a newline in front of an element if the text is the
first thing in HTML. -/
def keptText (first html : Bool) (str : String) : String :=
  if first && html && ['\n', '<'].isPrefixOf str.toList then String.ofList (str.toList.drop 1) else str

/-- Nothing is left of a text exactly if there was nothing. -/
theorem keptText_eq_empty {first html : Bool} {str : String} :
    keptText first html str = "" ↔ str = "" := by
  unfold keptText
  split
  · next hcut =>
    simp only [Bool.and_eq_true, List.isPrefixOf_iff_prefix] at hcut
    obtain ⟨rest, hrest⟩ := hcut.2
    constructor
    · intro hempty
      have hnil := congrArg String.toList hempty
      rw [← hrest] at hnil
      simp at hnil
    · intro hempty
      rw [hempty] at hrest
      simp at hrest
  · exact Iff.rfl

/-- Write bytes. -/
def Effect.writes (bytes : ByteArray) : Effect := fun m o => o = Env.written m bytes

namespace Compile

variable {c : Context} {pos : Pos} {s s' : State} {f f' g : Fragment} {ns : List Node} {str : String}

/-! ### The code of a text -/

/-- What is left of a text depends on whether it is the first and on the content type. -/
theorem staticText_eq (set : TemplateSet) (f : Fragment) (str : String) :
    staticText set f str = keptText f.isEmpty (Text.contains set.contentType "html") str := by
  unfold staticText keptText
  by_cases hfirst : f.isEmpty && Text.contains set.contentType "html"
  · rw [if_pos hfirst, hfirst, Bool.true_and]
    split
    · next rest htext => simp [htext]
    · next hnot =>
      rw [if_neg]
      intro hprefix
      obtain ⟨rest, hrest⟩ := List.isPrefixOf_iff_prefix.mp hprefix
      exact hnot rest hrest.symm
  · rw [Bool.not_eq_true] at hfirst
    simp [hfirst]

/-- The code of a text writes what is kept of it. -/
theorem text_eq_ok (h : text c pos f str s = .ok (f', s')) :
    ∃ code, f'.instrs = f.instrs ++ code ∧ (∀ i ∈ code, i.isLocal) ∧ (code = [] ↔ str = "") ∧
      ∀ env : Env, s'.tables.Extends env.tables → env.Runs code =
        Effect.writes (keptText f.isEmpty (Text.contains c.set.contentType "html") str).toUTF8 := by
  unfold text at h
  rw [staticText_eq] at h
  generalize hkept : keptText f.isEmpty (Text.contains c.set.contentType "html") str = kept at h ⊢
  have hempty : kept = "" ↔ str = "" := hkept ▸ keptText_eq_empty
  split at h
  · next hnil =>
    cases h
    have hnil : kept = "" := String.isEmpty_iff.mp hnil
    refine ⟨[], (List.append_nil _).symm, List.forall_mem_nil _, by simpa using hempty.mp hnil, ?_⟩
    intro env _
    have hbytes : kept.toUTF8 = .empty := by
      rw [hnil]
      rfl
    rw [Env.runs_nil, hbytes]
    funext m o
    rw [Effect.writes, Env.written_empty]
    rfl
  · next hsome =>
    obtain ⟨index, t, hchunk, hpure⟩ := bind_eq_ok.mp h
    cases hpure
    obtain ⟨u, hadd, rfl⟩ := addEntry_eq_ok hchunk
    obtain ⟨-, -, hentry⟩ := Tables.addChunk_eq_some hadd
    refine ⟨[.wb index], Fragment.instrs_push f _, List.forall_mem_singleton.mpr rfl, ?_, ?_⟩
    · rw [← hempty, ← String.isEmpty_iff]
      simpa using hsome
    · intro env hextends
      funext m o
      exact propext (Env.runs_wb (hextends.chunks _ _ hentry))

/-! ### Nodes without code -/

/-- Whether the pipeline of an action is compiled to no code, or to code that prints an empty constant. -/
def PrintsNothing (c : Context) (pipe : Pipeline) : Prop :=
  ∃ s g s' h, pipeline c true pipe s = .ok (g, s') ∧
    h = (if pipe.decl.isEmpty && !s'.noPrint then g.push .print else g) ∧
    (h.instrs = [] ∨ printedConstant? c s'.tables h.code = some "")

mutual

/-- Whether a node is a comment, an empty text, an action that prints nothing or a list of such nodes. -/
def Vanishes (c : Context) : Node → Prop
  | .comment .. => True
  | .text _ str => str = ""
  | .action _ pipe => PrintsNothing c pipe
  | .list ⟨_, ns⟩ => AllVanish c ns
  | _ => False

/-- Whether nodes are comments, empty texts and actions that print nothing. -/
def AllVanish (c : Context) : List Node → Prop
  | [] => True
  | n :: rest => Vanishes c n ∧ AllVanish c rest

end

/-- Code that is added behind a fragment and leaves it as it is is empty. -/
theorem eq_nil_of_instrs_eq {code : List Instr} (h : g.instrs = f.instrs) (hcode : g.instrs = f.instrs ++ code) :
    code = [] := List.append_cancel_left (hcode.symm.trans (h.trans (List.append_nil _).symm))

mutual

/-- Comments and empty texts are compiled to no code. -/
theorem instrs_of_isBlank : ∀ (n : Node) {f g : Fragment} {s s' : State}, n.isBlank →
    node c f n s = .ok (g, s') → g.instrs = f.instrs
  | .list ⟨_, ns⟩, _, _, _, _, h, hrun => by
    obtain ⟨g', hns, hg'⟩ := list_eq_ok hrun
    rw [hg']
    exact instrs_of_allBlank ns h hns
  | .text _ str, _, _, _, _, h, hrun => by
    obtain ⟨g', s₁, htext, hmark⟩ := bind_eq_ok.mp hrun
    cases hmark
    obtain ⟨code, hcode, -, hnil, -⟩ := text_eq_ok htext
    rw [Fragment.instrs_mark, hcode, hnil.mpr (String.isEmpty_iff.mp h), List.append_nil]
  | .comment _ _, _, _, _, _, _, hrun => by
    cases hrun
    rfl

/-- Blank nodes have no code. -/
theorem instrs_of_allBlank : ∀ (ns : List Node) {f g : Fragment} {s s' : State}, Node.allBlank ns →
    nodes c f ns s = .ok (g, s') → g.instrs = f.instrs
  | [], _, _, _, _, _, hrun => by
    cases hrun
    rfl
  | n :: rest, _, _, _, _, h, hrun => by
    simp only [Node.allBlank, Bool.and_eq_true] at h
    obtain ⟨f₁, s₁, hn, hrest⟩ := bind_eq_ok.mp hrun
    exact (instrs_of_allBlank rest h.2 hrest).trans (instrs_of_isBlank n h.1 hn)

end

/-- An action that is compiled to no code prints nothing. -/
theorem printsNothing_of_instrs {pipe : Pipeline} (hrun : action c pos f pipe s = .ok (g, s'))
    (h : g.instrs = f.instrs) : PrintsNothing c pipe := by
  obtain ⟨g', s₁, s₂, hpipe, hs₂, hsettle⟩ := action_eq_ok hrun
  refine ⟨s, g', s₁, _, hpipe, rfl, ?_⟩
  have hstraight := (yields_emitsBindings pipe g' s₁ hpipe).1.straight
  have hprinted : Straight
      (if pipe.decl.isEmpty && !s₁.noPrint then g'.push .print else g').instrs := by
    split
    · rw [Fragment.instrs_push]
      exact hstraight.append (straight_singleton rfl)
    · exact hstraight
  generalize (if pipe.decl.isEmpty && !s₁.noPrint then g'.push .print else g') = k at hsettle hprinted ⊢
  have htables : s₂.tables = s₁.tables := hs₂ ▸ rfl
  unfold settle at hsettle
  rw [htables] at hsettle
  cases hconstant : printedConstant? c s₁.tables k.code with
  | some str =>
    rw [hconstant] at hsettle
    simp only at hsettle
    split at hsettle
    · next hempty => exact .inr (by rw [String.isEmpty_iff.mp hempty])
    · obtain ⟨index, t, -, hpure⟩ := bind_eq_ok.mp hsettle
      cases hpure
      exact absurd (eq_nil_of_instrs_eq h (Fragment.instrs_push f _)) (List.cons_ne_nil _ _)
  | none =>
    rw [hconstant] at hsettle
    obtain ⟨b, t, hbalanced, hpure⟩ := bind_eq_ok.mp hsettle
    cases hpure
    obtain ⟨-, held, pop, -, hheld, hb, -⟩ := balanced_eq_ok hprinted hbalanced
    have hnil := eq_nil_of_instrs_eq h (Fragment.instrs_append f b)
    rw [hb, hheld] at hnil
    simp only [List.append_eq_nil_iff] at hnil
    exact .inl hnil.1.2

/-- A branch always has code. -/
theorem branchCode_ne_nil {kind : BranchKind} {assign : Bool} {decl : List Nat} {pop : Option Nat}
    {body : List Instr} {orElse : Option (List Instr)} :
    branchCode kind assign decl pop body orElse ≠ [] := by
  cases kind <;> simp [branchCode, conditionalCode]

/-- A template call is compiled to an instruction. -/
theorem instrs_of_templateCall {name : String} {pipe : Option Pipeline}
    (hrun : templateCall c pos f name pipe s = .ok (g, s')) : g.instrs ≠ f.instrs := by
  by_cases hcontains : c.set.contains name = true
  · rw [templateCall_of_contains hcontains] at hrun
    obtain ⟨argument, s₁, -, hbehind⟩ := bind_eq_ok.mp hrun
    obtain ⟨b, s₂, -, hrest⟩ := bind_eq_ok.mp hbehind
    obtain ⟨ns, s₃, -, hrest⟩ := bind_eq_ok.mp hrest
    obtain ⟨index, s₄, -, hpure⟩ := bind_eq_ok.mp hrest
    cases hpure
    simp
  · rw [templateCall_of_not_contains hcontains] at hrun
    cases hrun

mutual

/-- Nodes other than comments, empty texts and actions that print nothing are compiled to code. -/
theorem vanishes_of_instrs : ∀ (n : Node) {f g : Fragment} {s s' : State},
    node c f n s = .ok (g, s') → g.instrs = f.instrs → Vanishes c n
  | .list ⟨_, ns⟩, _, _, _, _, hrun, h => by
    obtain ⟨g', hns, hg'⟩ := list_eq_ok hrun
    exact allVanish_of_instrs ns hns (hg'.symm.trans h)
  | .text _ str, _, _, _, _, hrun, h => by
    obtain ⟨g', s₁, htext, hmark⟩ := bind_eq_ok.mp hrun
    cases hmark
    obtain ⟨code, hcode, -, hnil, -⟩ := text_eq_ok htext
    exact hnil.mp (eq_nil_of_instrs_eq h hcode)
  | .action _ pipe, _, _, _, _, hrun, h => by
    obtain ⟨g', s₁, haction, hmark⟩ := bind_eq_ok.mp hrun
    cases hmark
    exact printsNothing_of_instrs haction h
  | .comment _ _, _, _, _, _, _, _ => trivial
  | .branch kind pos pipe body orElse, _, _, _, _, hrun, h => by
    obtain ⟨B, hB⟩ := yields_branchSteps _ _ hrun
    have hnil := eq_nil_of_instrs_eq h hB
    exact absurd (List.append_eq_nil_iff.mp hnil).2 branchCode_ne_nil
  | .template pos name pipe, _, _, _, _, hrun, h => by
    obtain ⟨g', s₁, hcall, hmark⟩ := bind_eq_ok.mp hrun
    cases hmark
    have hne := instrs_of_templateCall hcall
    exact absurd h hne
  | .breakLoop _, _, _, _, _, hrun, _ | .continueLoop _, _, _, _, _, hrun, _ => nomatch hrun

/-- Nodes without code are nodes that vanish. -/
theorem allVanish_of_instrs : ∀ (ns : List Node) {f g : Fragment} {s s' : State},
    nodes c f ns s = .ok (g, s') → g.instrs = f.instrs → AllVanish c ns
  | [], _, _, _, _, _, _ => trivial
  | n :: rest, f, g, s, s', hrun, h => by
    obtain ⟨f₁, s₁, code, code', hn, hrest, hcode, hcode', -⟩ := nodes_cons_split hrun
    have hnil : code ++ code' = [] :=
      eq_nil_of_instrs_eq h (by rw [hcode', hcode, List.append_assoc])
    obtain ⟨rfl, rfl⟩ := List.append_eq_nil_iff.mp hnil
    rw [List.append_nil] at hcode hcode'
    exact ⟨vanishes_of_instrs n hn hcode, allVanish_of_instrs rest hrest hcode'⟩

end

/-! ### Texts in compiled programs -/

/-- The place of a piece of a template in a compiled program: the code that its nodes are compiled to, at
an offset where it can only be entered at its start. Behind the nodes in front of a text, the text is
compiled to the rest of the code but for what is behind it. Calls of templates that consist of a chunk may
have been replaced by the chunk. -/
structure TextSite (c : Context) (p : Program) (pos : Pos) (str : String) (piece before : List Node) where
  template : CompiledTemplate
  /-- The offset at which the piece starts. -/
  start : Nat
  state : State
  result : Fragment
  after : State
  /-- What the nodes in front of the text are compiled to. -/
  leading : Fragment
  reached : State
  /-- What they and the text are compiled to. -/
  ending : Fragment
  passed : State
  trailing : List Instr
  stitch : Instr → Instr
  compiled : nodes c .empty piece state = .ok (result, after)
  compiled_leading : nodes c .empty before state = .ok (leading, reached)
  compiled_text : text c pos leading str reached = .ok (ending, passed)
  instrs_result : result.instrs = ending.instrs ++ trailing
  extends_ : after.tables.Extends p.tables
  stitches : ∀ i, p.Stitches i (stitch i)
  found : p.templates[c.name]? = some template
  enclosed : EnclosedAt start (result.instrs.map stitch) template.code.toList

namespace TextSite

variable {p : Program} {piece before : List Node}

/-- The code in front of the text. -/
def front (S : TextSite c p pos str piece before) : List Instr := S.leading.instrs.map S.stitch

/-- The code behind the text. -/
def back (S : TextSite c p pos str piece before) : List Instr := S.trailing.map S.stitch

/-- The offset right behind the piece. -/
def stop (S : TextSite c p pos str piece before) : Nat := S.start + (S.result.instrs.map S.stitch).length

variable (S : TextSite c p pos str piece before)

/-- There is nothing in front of a piece of text exactly if no code has been emitted there. -/
theorem front_eq_nil_iff : S.front = [] ↔ S.leading.instrs = [] := List.map_eq_nil_iff

/-- There is nothing in front of a piece of text exactly if the fragment in front of it is empty. -/
theorem isEmpty_front : S.front.isEmpty = S.leading.isEmpty := by
  rw [front, List.isEmpty_map, Fragment.isEmpty, Array.isEmpty_toList, Fragment.instrs]

/-- Replacing calls moves no jump. -/
theorem closed_map_stitch {code : List Instr} (h : Closed code) : Closed (code.map S.stitch) :=
  have hreplaces := Program.replacing_of_stitches S.stitches
  closed_map (fun _ hnot => hreplaces.fixes hnot) (fun _ _ => hreplaces.distance? _) h

/-- The code in front of the text is that of nodes. -/
theorem closed_front : Closed S.front := by
  obtain ⟨code, _, hcode, hwrites⟩ := yields_nodes before .empty S.state S.leading S.reached S.compiled_leading
  have hcode : S.leading.instrs = code := hcode
  exact S.closed_map_stitch (hcode ▸ hwrites.closed)

/-- The code behind the text is that of the nodes there. -/
theorem closed_back (hfollows : (Node.text pos str).Follows before piece) :
    Closed S.back ∧ S.passed.tables.Extends p.tables := by
  obtain ⟨leading, reached, ending, passed, trailing, hleading, htext, hresult, hclosed, hextends⟩ :=
    exists_text hfollows S.compiled
  obtain ⟨rfl, rfl⟩ := Prod.mk.inj (Except.ok.inj (hleading.symm.trans S.compiled_leading))
  obtain ⟨rfl, rfl⟩ := Prod.mk.inj (Except.ok.inj (htext.symm.trans S.compiled_text))
  obtain rfl : trailing = S.trailing := List.append_cancel_left (hresult.symm.trans S.instrs_result)
  exact ⟨S.closed_map_stitch hclosed, hextends.trans S.extends_⟩

/-- Between the code in front of the text and that behind it is code that writes what is kept of it. -/
theorem instrs_eq : ∃ code, S.result.instrs.map S.stitch = S.front ++ code ++ S.back ∧ Closed code ∧
    (S.passed.tables.Extends p.tables → p.env.Runs code =
      Effect.writes (keptText S.front.isEmpty (Text.contains c.set.contentType "html") str).toUTF8) := by
  obtain ⟨code, hcode, hlocal, -, hruns⟩ := text_eq_ok S.compiled_text
  have hfixes (i : Instr) (hi : i ∈ code) : S.stitch i = id i :=
    (Program.replacing_of_stitches S.stitches).fixes (Instr.ne_template_of_isLocal (hlocal i hi))
  have hmap : code.map S.stitch = code := (List.map_congr_left hfixes).trans (List.map_id _)
  refine ⟨code, ?_, closed_of_distance? fun i hi => Instr.distance?_of_isLocal (hlocal i hi), ?_⟩
  · rw [S.instrs_result, hcode, List.map_append, List.map_append, hmap, front, back]
  · rw [S.isEmpty_front]
    exact hruns p.env

/-- A run that gets to the piece does what is in front of the text, writes what is kept of the text and
does what is behind it. -/
theorem runsFrom_start (hfollows : (Node.text pos str).Follows before piece) :
    p.RunsFrom c.name S.template S.start =
      (p.env.Runs S.front).andThen ((Effect.writes (keptText S.front.isEmpty
        (Text.contains c.set.contentType "html") str).toUTF8).andThen
          ((p.env.Runs S.back).andThen (p.RunsFrom c.name S.template S.stop))) := by
  obtain ⟨hback, hextends⟩ := S.closed_back hfollows
  obtain ⟨code, hcode, hclosed, hruns⟩ := S.instrs_eq
  obtain ⟨front, rest, hwhole, hstart, -⟩ := S.enclosed
  rw [hcode] at hwhole
  have hfirst := p.env.runsFrom_inside front (code ++ S.back ++ rest) _ _ S.closed_front
    (hwhole.trans (by simp)) rfl rfl
  have htext := p.env.runsFrom_inside (front ++ S.front) (S.back ++ rest) _ _ hclosed
    (hwhole.trans (by simp)) List.length_append.symm rfl
  have hlast := p.env.runsFrom_inside (front ++ S.front ++ code) rest
    (front.length + S.front.length + code.length) _ hback (hwhole.trans (by simp))
    (by simp only [List.length_append]) rfl
  simp only [Program.runsFrom_eq, stop, hcode, ← hstart]
  rw [hfirst, htext, hlast, hruns hextends]
  simp [Nat.add_assoc]

end TextSite

variable {set : TemplateSet} {registry : Registry} {options : CompileOptions} {schema : Schema}
  {p : Program} {name : String} {tree : Tree} {piece before : List Node}

/-- Each text of a piece of a template is at a site. -/
theorem nonempty_textSite (hcompile : compile schema registry options set = .ok p)
    (htree : set.get? name = some tree) (hpiece : Node.IsPiece piece tree.root.nodes)
    (hfollows : (Node.text pos str).Follows before piece) :
    Nonempty (TextSite ⟨set, registry, options, schema, name, tree.source⟩ p pos str piece before) := by
  obtain ⟨u, φ, s, g, s', hu, hφ, hrun, hextends, hin⟩ := exists_piece_of_compile hcompile htree hpiece
  obtain ⟨leading, s₁, ending, s₂, trailing, hleading, htext, hresult, -⟩ := exists_text hfollows hrun
  obtain ⟨start, henclosed⟩ := hin.exists_enclosedAt
  exact ⟨⟨u, start, s, g, s', leading, s₁, ending, s₂, trailing, φ, hrun, hleading, htext, hresult, hextends,
    hφ, hu, henclosed⟩⟩

/-- A run that gets to a piece of a template does what is in front of a text, writes the text, does what
is behind it and goes on behind the piece. All of the text is written, but for a newline in front of an
element of an HTML template when no code is in front of it. There is none if only comments and empty
texts are in front of it in its piece, and if there is none, only such nodes and actions that print
nothing are. -/
theorem static_text_survives (hcompile : compile schema registry options set = .ok p)
    (htree : set.get? name = some tree) (hpiece : Node.IsPiece piece tree.root.nodes)
    (hfollows : (Node.text pos str).Follows before piece) :
    Nonempty (TextSite ⟨set, registry, options, schema, name, tree.source⟩ p pos str piece before) ∧
    ∀ S : TextSite ⟨set, registry, options, schema, name, tree.source⟩ p pos str piece before,
      p.RunsFrom name S.template S.start =
        (p.env.Runs S.front).andThen ((Effect.writes (keptText S.front.isEmpty
          (Text.contains set.contentType "html") str).toUTF8).andThen
            ((p.env.Runs S.back).andThen (p.RunsFrom name S.template S.stop))) ∧
      (Node.allBlank before → S.front = []) ∧
      (S.front = [] → AllVanish ⟨set, registry, options, schema, name, tree.source⟩ before) := by
  refine ⟨nonempty_textSite hcompile htree hpiece hfollows, fun S => ?_⟩
  refine ⟨S.runsFrom_start hfollows, fun hblank => ?_, fun hnone => ?_⟩
  · exact S.front_eq_nil_iff.mpr (instrs_of_allBlank before hblank S.compiled_leading)
  · exact allVanish_of_instrs before S.compiled_leading (S.front_eq_nil_iff.mp hnone)

end Compile

namespace Sample

/-- The text `"\n<b>"`. -/
def boldText : Node := .text 0 "\n<b>"

/-- A branch with a text in its body, `{{if true}}\n<b>{{end}}`. -/
def boldBranch : Node :=
  .branch .ifThen 0 (.mk 0 false [] [.mk 0 [.bool 0 true]]) ⟨0, [boldText]⟩ none

/-- A set of one HTML template, which consists of the branch. -/
def boldSet : TemplateSet :=
  { TemplateSet.ofRoot ⟨"main", ⟨0, [boldBranch]⟩, none⟩ with contentType := "text/html" }

end Sample

namespace Compile

open Stencil.Sample

/-- The text of the sample loses its newline where it stands. -/
theorem static_text_survives_sample :
    boldSet.get? "main" = some ⟨"main", ⟨0, [boldBranch]⟩, none⟩ ∧
      Node.IsPiece [boldText] [boldBranch] ∧ boldText.Follows [] [boldText] ∧
      ∃ p, compile .plain .empty .standard boldSet = .ok p ∧
        ∃ S : TextSite ⟨boldSet, .empty, .standard, .plain, "main", none⟩ p 0 "\n<b>" [boldText] [],
          S.front = [] ∧ p.RunsFrom "main" S.template S.start =
            (p.env.Runs []).andThen ((Effect.writes "<b>".toUTF8).andThen
              ((p.env.Runs S.back).andThen (p.RunsFrom "main" S.template S.stop))) := by
  have hget : boldSet.get? "main" = some ⟨"main", ⟨0, [boldBranch]⟩, none⟩ := rfl
  have hpiece : Node.IsPiece [boldText] [boldBranch] := .body _ _ _ _ _ (.here _)
  have hfollows : boldText.Follows [] [boldText] := .here _
  obtain ⟨p, hp⟩ : ∃ p, compile .plain .empty .standard boldSet = .ok p :=
    exists_of_isOk (by decide +kernel)
  obtain ⟨⟨S⟩, hall⟩ := static_text_survives hp hget hpiece hfollows
  obtain ⟨hruns, hblank, -⟩ := hall S
  have hfront := hblank rfl
  rw [hfront] at hruns
  exact ⟨hget, hpiece, hfollows, p, hp, S, hfront, hruns⟩

/-- A text that is not the first thing in its template loses its newline too, at the start of a body and
behind an action that prints an empty constant. -/
theorem newline_is_lost_in_body :
    (∀ before, ¬boldText.Follows before [boldBranch]) ∧ rendered boldSet false = some (none, "<b>") ∧
      rendered newline true = some (none, "<b>") := by
  refine ⟨fun before h => ?_, by decide +kernel, by decide +kernel⟩
  cases h with
  | behind _ h => nomatch h

end Compile
end Stencil
