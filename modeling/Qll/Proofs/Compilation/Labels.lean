import Qll.Proofs.Compilation.Stages
import Qll.Proofs.Types.Spacing

/-!
# Labels of compiled programs

Whatever the directives of a compilation refer to is defined among them: routines, instances of
templates, globals, texts and the labels within routines. One label is an exception. The block of
temporaries of the initial values is left out when it has no words, also if an initial value without
words refers to it.

No label is defined twice. The labels of a routine begin with its own label, and only what the routine
makes goes on behind a dollar sign. So labels of different routines and globals differ if their names do,
and names differ also without their blanks. The names of live declarations are distinct because the graph
of a program takes no name twice.
-/

namespace Qll.Compilation

open Assembly (Defect labels references)
open Codegen (symbol temporariesLabel)
open Program (symbols liveFunctions liveGlobals)

/-- The words of the temporaries of initial values. -/
def Run.temporaryWords (r : Run) : Int :=
  match r.linkage.init.frame with
  | .block _ size => size
  | _ => 0

/-- The labels of live declarations are among the labels of a program. -/
theorem mem_labels_of_live {s : Check.State} {live : List String} {g : Program.Graph}
    {extra : List String} (hg : Program.Graph.ofNodes (Program.routines s) = .ok g)
    (hlive : live = g.solve extra) {q : String} (hq : q ∈ live) :
    symbol q ∈ (liveFunctions s live).map (fun f => symbol f.qualified) ∨
      symbol q ∈ (liveGlobals s live).map (fun g => symbol g.qualified) := by
  have hnode : q ∈ s.nodes :=
    (Program.has_of_mem_nodes (Program.Graph.ofNodes_ok hg).1).1
      (Program.Graph.has_of_mem_solve (hlive ▸ hq))
  simp only [Check.State.nodes, List.mem_append, List.mem_map] at hnode
  obtain ⟨i, hi, rfl⟩ | ⟨i, hi, rfl⟩ := hnode
  · exact .inr (List.mem_map.2 ⟨i, List.mem_filter.2 ⟨hi, by simpa using hq⟩, rfl⟩)
  · exact .inl (List.mem_map.2 ⟨i, List.mem_filter.2 ⟨hi, by simpa using hq⟩, rfl⟩)

/-- The name of each routine is among the labels of the families. -/
theorem mem_flatten_of_families {names : List String} {families : List (List String)}
    (h : List.Forall₂ Codegen.Family names families) {l : String} (hl : l ∈ names) :
    l ∈ families.flatten := by
  induction h with
  | nil => simp at hl
  | cons hfamily _ ih =>
    obtain ⟨new, high, hperm, -⟩ := hfamily
    rw [List.flatten_cons, List.mem_append]
    obtain rfl | hl := List.mem_cons.1 hl
    · exact .inl (hperm.symm.subset (by simp))
    · exact .inr (ih hl)

section Linked

variable {s : Check.State} {live : List String} {library : Bool} {u u' : Codegen.Linkage} {entry : String}
  {result : Codegen.Result} {ds : List Assembly.Directive}

/-- What a linked program refers to is defined in it, but for the block of temporaries if it has no words. -/
theorem references_of_linked {g : Program.Graph} {extra : List String}
    (hu : u.Over library (symbols live) ((liveFunctions s live).map fun f => symbol f.qualified)
      ((liveGlobals s live).map fun g => symbol g.qualified))
    (hlink : Codegen.link entry result u = .ok ds u') (hg : Program.Graph.ofNodes (Program.routines s) = .ok g)
    (hlive : live = g.solve extra) (hentry : library = false → entry ∈ live) :
    ∃ size, u'.init.frame = .block temporariesLabel size ∧
      ∀ l ∈ references ds, l ∈ labels ds ∨ l = temporariesLabel ∧ size ≤ 0 := by
  obtain ⟨⟨size, hframe⟩, front, init, families, -, -, hfamilies, hlabels, hrefs⟩ :=
    Codegen.link_labels hu hlink
  have hlabel {q : String} (hq : q ∈ live) : symbol q ∈ labels ds := by
    refine hlabels.symm.subset ?_
    simp only [List.mem_append]
    obtain hq | hq := mem_labels_of_live hg hlive hq
    · exact .inr (.inr (.inl (mem_flatten_of_families hfamilies hq)))
    · exact .inr (.inr (.inr (.inl hq)))
  refine ⟨size, hframe, fun l hl => ?_⟩
  rcases hrefs l hl with hl | ⟨q, hq, rfl⟩ | ⟨hlibrary, rfl⟩ | rfl
  · exact .inl hl
  · exact .inl (hlabel hq)
  · exact .inl (hlabel (hentry hlibrary))
  · by_cases hsize : 0 < size
    · refine .inl (hlabels.symm.subset ?_)
      simp [hframe, Codegen.Frame.labels, hsize]
    · exact .inr ⟨rfl, by omega⟩

end Linked

/-- The program of a compilation is sound in a world whose names are those of its declarations. These differ
from one another, and what is live is closed under references. -/
theorem Course.sound (V : Types.Vocabulary) {decls : List Source.Decl}
    (hnames : ∀ n ∈ Source.declsNames decls, V.accepts n) {options : Options} {s : Check.State}
    {live : List String} {u u' : Codegen.Linkage} {ds : List Assembly.Directive}
    (h : Course decls options s live u u' ds) :
    ∃ w : Check.World, w.vocabulary.accepts = V.accepts ∧ w.nodes = { q | q ∈ s.nodes } ∧ w.Sound s ∧
      s.nodes.Nodup ∧ Program.LiveClosed s live := by
  obtain ⟨hok, s₀, s₁, s₂, s₃, b, hdeclare, hbind, hkind, htypes, hdeferred⟩ := h.accepted
  obtain ⟨w, hw, hnodes, hs⟩ := Program.sound_checked V hnames hdeclare hbind hkind htypes hdeferred hok
  obtain ⟨g, extra, hg, hlive⟩ := h.graph
  obtain ⟨hgraph, hdistinct⟩ := Program.Graph.ofNodes_ok hg
  have hnodup : s.nodes.Nodup := by
    simpa [Program.routines, Check.State.nodes, Function.comp_def] using hdistinct
  exact ⟨w, hw, hnodes, hs, hnodup, hlive ▸ Program.closed_solve hgraph extra⟩

/-- Every label that the directives of a compilation refer to is defined among them, but for the block
of temporaries if it has no words. So an undefined label is never reported, as long as the block has
words when it is referred to. -/
theorem references_defined {units : List Interchange.LoadedUnit} {options : Options}
    {ds : List Assembly.Directive} (h : (compile units options).directives = some ds) :
    (∀ l ∈ references ds, l ∈ labels ds ∨
        l = temporariesLabel ∧ (compile units options).temporaryWords ≤ 0) ∧
      ((temporariesLabel ∈ references ds → 0 < (compile units options).temporaryWords) →
        ∀ p l, Defect.find ds ≠ some (.undefinedLabel p l)) := by
  obtain ⟨s, live, u, hcourse⟩ := course_of_directives h
  obtain ⟨w, -, hnodes, hs, -, hclosed⟩ := hcourse.sound Program.everything fun _ _ => trivial
  obtain ⟨g, extra, hg, hlive⟩ := hcourse.graph
  have hu := Program.over_compilations hs hnodes hclosed hcourse.compiled
  obtain ⟨entry, result, hlink, hentry⟩ := hcourse.linked
  obtain ⟨size, hframe, hrefs⟩ := references_of_linked hu hlink hg hlive hentry
  have hwords : (compile units options).temporaryWords = size := by
    rw [Run.temporaryWords, hframe]
  have hall : ∀ l ∈ references ds, l ∈ labels ds ∨
      l = temporariesLabel ∧ (compile units options).temporaryWords ≤ 0 := hwords ▸ hrefs
  refine ⟨hall, fun hblock p l => Assembly.Defect.find_ne_undefined fun l hl => ?_⟩
  obtain hl | ⟨rfl, hsize⟩ := hall l hl
  · exact hl
  · have := hblock hl
    omega

/-! ## Initial values in temporaries -/

/-- A program with an entry point and an exported global that is a struct of bytes, whose initial value
is a struct value. -/
def structProgram (members : List String) : List Interchange.LoadedUnit :=
  let here : Source.Location := ⟨"", 0, 0⟩
  let type : Source.TypeExpr := .struct (members.map fun m => (m, .name "byte" here, here)) here
  [{ path := "", decls := [.global "g" (some type) (some (.struct type [] here)) true here,
    .function "main" [] [] none [] false false here] }]

/-- A struct as initial value refers to the block of temporaries, which has words. -/
theorem references_defined_struct : ∃ ds,
    (compile (structProgram ["a", "b"]) {}).directives = some ds ∧
      temporariesLabel ∈ references ds ∧
      0 < (compile (structProgram ["a", "b"]) {}).temporaryWords ∧
      (∀ l ∈ references ds, l ∈ labels ds ∨
        l = temporariesLabel ∧ (compile (structProgram ["a", "b"]) {}).temporaryWords ≤ 0) ∧
      ∀ p l, Defect.find ds ≠ some (.undefinedLabel p l) := by
  have hgives : (compile (structProgram ["a", "b"]) {}).directives.any
      (fun ds => (references ds).contains temporariesLabel) = true := by decide +kernel
  have hwords : 0 < (compile (structProgram ["a", "b"]) {}).temporaryWords := by decide +kernel
  obtain ⟨ds, hds, hrefers⟩ := (Option.any_eq_true _ _).1 hgives
  obtain ⟨hdefined, hfind⟩ := references_defined hds
  exact ⟨ds, hds, by simpa using hrefers, hwords, hdefined, hfind fun _ => hwords⟩

/-- An initial value without words refers to a block that is left out. -/
theorem temporaries_undefined : ∃ ds, (compile (structProgram []) {}).directives = some ds ∧
    temporariesLabel ∈ references ds ∧ temporariesLabel ∉ labels ds ∧
    Defect.find ds = some (.undefinedLabel 14 temporariesLabel) := by
  have hgives : (compile (structProgram []) {}).directives.any (fun ds => decide
      (temporariesLabel ∈ references ds ∧ temporariesLabel ∉ labels ds ∧
        Defect.find ds = some (.undefinedLabel 14 temporariesLabel))) = true := by decide +kernel
  obtain ⟨ds, hds, hlabel⟩ := (Option.any_eq_true _ _).1 hgives
  exact ⟨ds, hds, of_decide_eq_true hlabel⟩

end Qll.Compilation

namespace Qll.Codegen

/-! ## Labels of one routine -/

/-- A label up to its first dollar sign. -/
def stem (l : String) : String := String.ofList (l.toList.takeWhile (· ≠ '$'))

/-- A name without a dollar sign is its own stem. -/
theorem stem_eq_self {name : String} (h : '$' ∉ name.toList) : stem name = name := by
  rw [stem, List.takeWhile_eq_self_iff.2, String.ofList_toList]
  intro c hc
  simpa using fun heq : c = '$' => h (heq ▸ hc)

/-- A label goes on from the name of its routine behind a dollar sign, or is the name. -/
def GoesOn (name l : String) : Prop := l = name ∨ ∃ tail, l = name ++ "$" ++ tail

/-- Behind a dollar sign nothing adds to the stem. -/
theorem GoesOn.stem {name l : String} (h : GoesOn name l) : stem l = stem name := by
  obtain rfl | ⟨tail, rfl⟩ := h
  · rfl
  · rw [Codegen.stem, Codegen.stem, String.toList_append, String.toList_append, List.append_assoc,
      List.takeWhile_append]
    split
    · next hlength =>
      rw [(List.takeWhile_prefix (fun c => decide (c ≠ '$'))).eq_of_length hlength]
      simp
    · rfl

/-- A label that goes on from a name has the name in front. -/
theorem GoesOn.prefix {name l : String} (h : GoesOn name l) : name.toList <+: l.toList := by
  obtain rfl | ⟨tail, rfl⟩ := h
  · exact List.prefix_refl _
  · rw [String.toList_append, String.toList_append, List.append_assoc]
    exact List.prefix_append _ _

/-- A name is not what goes on from it. -/
theorem ne_append_dollar (name tail : String) : name ≠ name ++ "$" ++ tail := by
  intro heq
  have hlength := congrArg String.length heq
  have hdollar : "$".length = 1 := by decide
  simp only [String.length_append] at hlength
  omega

/-- A label without a number is not a made one. -/
theorem append_ne_madeLabel {name word hint : String} (hword : IsHint word) (h : IsHint hint) (n : Nat) :
    name ++ "$" ++ word ≠ madeLabel name hint n := by
  intro heq
  have hlist : word.toList = hint.toList ++ (Nat.repr n).toList := by
    have hall := congrArg String.toList heq
    simp only [madeLabel, String.toList_append, List.append_assoc, List.append_cancel_left_eq] at hall
    exact hall
  have hhint : word.toList = hint.toList := by
    rw [← takeWhile_hint h n, ← hlist, eq_comm, List.takeWhile_eq_self_iff]
    exact fun c hc => by simp [(hword c hc).1]
  rw [hhint] at hlist
  simp at hlist

/-- The labels that a routine makes go on from its name, which is not among them. -/
theorem Made.goesOn {name : String} {low high : Nat} {new : List String} (h : Made name low high new) :
    name ∉ new ∧ ∀ l ∈ new, GoesOn name l := by
  refine ⟨fun hl => ?_, fun l hl => ?_⟩
  all_goals obtain ⟨hint, n, -, -, -, heq⟩ := h.form _ hl
  · exact ne_append_dollar name (hint ++ Nat.repr n) (by rwa [madeLabel, String.append_assoc] at heq)
  · exact heq ▸ .inr ⟨hint ++ Nat.repr n, by rw [madeLabel, String.append_assoc]⟩

namespace Family

variable {name : String} {ls : List String}

/-- The labels of a routine are its name, its exit and those that it made. -/
theorem cases (h : Family name ls) {l : String} (hl : l ∈ ls) :
    l = name ∨ l = name ++ "$" ++ "exit" ∨ ∃ hint n, IsHint hint ∧ l = madeLabel name hint n := by
  obtain ⟨new, high, hperm, hmade⟩ := h
  obtain rfl | rfl | hl : l = name ∨ l = name ++ "$exit" ∨ l ∈ new := by
    simpa using hperm.subset hl
  · exact .inl rfl
  · exact .inr (.inl (by rw [String.append_assoc]; rfl))
  · obtain ⟨hint, n, hhint, -, -, rfl⟩ := hmade.form l hl
    exact .inr (.inr ⟨hint, n, hhint, rfl⟩)

/-- The labels of a routine go on from its name. -/
theorem goesOn (h : Family name ls) : ∀ l ∈ ls, GoesOn name l := by
  intro l hl
  obtain rfl | rfl | ⟨hint, n, -, rfl⟩ := h.cases hl
  · exact .inl rfl
  · exact .inr ⟨_, rfl⟩
  · exact .inr ⟨hint ++ Nat.repr n, by rw [madeLabel, String.append_assoc]⟩

/-- The labels of a routine are distinct. -/
theorem nodup (h : Family name ls) : ls.Nodup := by
  obtain ⟨new, high, hperm, hmade⟩ := h
  have hexit : name ++ "$exit" = name ++ "$" ++ "exit" := by
    rw [String.append_assoc]
    rfl
  refine hperm.nodup_iff.2 (List.nodup_cons.2 ⟨fun hl => ?_, List.nodup_cons.2 ⟨fun hl => ?_, hmade.nodup⟩⟩)
  · obtain hl | hl := List.mem_cons.1 hl
    · exact ne_append_dollar name "exit" (hexit ▸ hl)
    · exact hmade.goesOn.1 hl
  · obtain ⟨hint, n, hhint, -, -, heq⟩ := hmade.form _ hl
    exact append_ne_madeLabel (by decide) hhint n (hexit ▸ heq)

end Family

/-- The labels of routines with distinct names without dollar signs are distinct. -/
theorem nodup_families {names : List String} {families : List (List String)}
    (h : List.Forall₂ Family names families) (hnames : names.Nodup)
    (hclean : ∀ n ∈ names, '$' ∉ n.toList) :
    families.flatten.Nodup ∧ ∀ l ∈ families.flatten, stem l ∈ names := by
  induction h with
  | nil => simp
  | @cons name ls names families hfamily _ ih =>
    obtain ⟨hname, hnames⟩ := List.nodup_cons.1 hnames
    obtain ⟨hclean, hcleans⟩ := List.forall_mem_cons.1 hclean
    obtain ⟨hnodup, hstems⟩ := ih hnames hcleans
    have hstem (l : String) (hl : l ∈ ls) : stem l = name :=
      (hfamily.goesOn l hl).stem.trans (stem_eq_self hclean)
    refine ⟨?_, fun l hl => ?_⟩
    · refine List.nodup_append.2 ⟨hfamily.nodup, hnodup, fun l hl l' hl' heq => hname ?_⟩
      rw [← hstem l hl, heq]
      exact hstems l' hl'
    · obtain hl | hl := List.mem_append.1 hl
      · exact hstem l hl ▸ List.mem_cons_self
      · exact List.mem_cons_of_mem _ (hstems l hl)

/-! ## Labels of a program -/

/-- What stands in front of the labels that every program has. -/
def rootStem : String := "global:" ++ ":"

/-- The labels of the routines that every program has share one stem. -/
theorem stem_of_goesOn {l : String} (h : GoesOn startLabel l ∨ GoesOn initializeLabel l) :
    stem l = rootStem := by
  obtain h | h := h
  · exact h.stem.trans (by decide)
  · exact h.stem.trans (by decide)

/-- The start and the initializing routine have no label in common. -/
theorem not_goesOn_both {l : String} (h : GoesOn startLabel l) (h' : GoesOn initializeLabel l) : False := by
  have hstart : startLabel.toList.take 10 <+: l.toList := (List.take_prefix 10 _).trans h.prefix
  have hinit : initializeLabel.toList.take 10 <+: l.toList := (List.take_prefix 10 _).trans h'.prefix
  have heq := (List.prefix_of_prefix_length_le hstart hinit (by decide)).eq_of_length (by decide)
  exact absurd heq (by decide)

/-- The block of temporaries has its label from the initializing routine. -/
theorem temporariesLabel_eq : temporariesLabel = initializeLabel ++ "$" ++ "temporaries" := by decide

/-- The label of the temporaries goes on from that of the initializing routine. -/
theorem goesOn_temporaries : GoesOn initializeLabel temporariesLabel := .inr ⟨_, temporariesLabel_eq⟩

/-- The labels of the parts of a program are distinct if the names of its routines and globals are. -/
theorem nodup_parts {routines globals front init block : List String} {families : List (List String)}
    (hnames : (globals ++ routines).Nodup)
    (hclean : ∀ n ∈ globals ++ routines, '$' ∉ n.toList ∧ n ≠ rootStem)
    (hfront : front = [] ∨ ∃ new, front = startLabel :: new ∧ Made startLabel 0 2 new)
    (hinit : Family initializeLabel init) (hfamilies : List.Forall₂ Family routines families)
    (hblock : block = [] ∨ block = [temporariesLabel]) :
    (front ++ (init ++ (families.flatten ++ (globals ++ block)))).Nodup := by
  obtain ⟨hglobals, hroutines, hdisjoint⟩ := List.nodup_append.1 hnames
  obtain ⟨hnodup, hstems⟩ := nodup_families hfamilies hroutines fun n hn => (hclean n (by simp [hn])).1
  have hstart : front.Nodup ∧ ∀ l ∈ front, GoesOn startLabel l := by
    obtain rfl | ⟨new, rfl, hmade⟩ := hfront
    · simp
    · exact ⟨List.nodup_cons.2 ⟨hmade.goesOn.1, hmade.nodup⟩,
        List.forall_mem_cons.2 ⟨.inl rfl, hmade.goesOn.2⟩⟩
  have htemporaries : temporariesLabel ∉ init := fun hl => by
    obtain heq | heq | ⟨hint, n, hhint, heq⟩ := hinit.cases hl
    · exact absurd heq (by decide)
    · exact absurd heq (by decide)
    · exact append_ne_madeLabel (by decide) hhint n (temporariesLabel_eq ▸ heq)
  have hblocked : block.Nodup ∧ ∀ l ∈ block, l = temporariesLabel := by
    obtain rfl | rfl := hblock <;> simp
  have hcontinues (l : String) (hl : l ∈ block) : GoesOn initializeLabel l := by
    rw [hblocked.2 l hl]
    exact goesOn_temporaries
  have hroot (l : String) (hl : l ∈ front ∨ l ∈ init ∨ l ∈ block) : stem l = rootStem := by
    obtain hl | hl | hl := hl
    · exact stem_of_goesOn (.inl (hstart.2 l hl))
    · exact stem_of_goesOn (.inr (hinit.goesOn l hl))
    · exact stem_of_goesOn (.inr (hcontinues l hl))
  have hglobal (l : String) (hl : l ∈ globals) : stem l = l := stem_eq_self (hclean l (by simp [hl])).1
  have hother (l : String) (hl : l ∈ families.flatten ∨ l ∈ globals) : stem l ≠ rootStem := by
    obtain hl | hl := hl
    · exact (hclean (stem l) (List.mem_append_right _ (hstems l hl))).2
    · rw [hglobal l hl]
      exact (hclean l (List.mem_append_left _ hl)).2
  simp only [List.nodup_append, List.mem_append]
  refine ⟨hstart.1, ⟨hinit.nodup, ⟨hnodup, ⟨hglobals, hblocked.1, ?_⟩, ?_⟩, ?_⟩, ?_⟩
  · rintro l hl _ hl' rfl
    exact hother l (.inr hl) (hroot l (.inr (.inr hl')))
  · rintro l hl _ (hl' | hl') rfl
    · exact hdisjoint l hl' (stem l) (hstems l hl) (hglobal l hl').symm
    · exact hother l (.inl hl) (hroot l (.inr (.inr hl')))
  · rintro l hl _ (hl' | hl' | hl') rfl
    · exact hother l (.inl hl') (hroot l (.inr (.inl hl)))
    · exact hother l (.inr hl') (hroot l (.inr (.inl hl)))
    · exact htemporaries (hblocked.2 l hl' ▸ hl)
  · rintro l hl _ (hl' | hl' | hl' | hl') rfl
    · exact not_goesOn_both (hstart.2 l hl) (hinit.goesOn l hl')
    · exact hother l (.inl hl') (hroot l (.inl hl))
    · exact hother l (.inr hl') (hroot l (.inl hl))
    · exact not_goesOn_both (hstart.2 l hl) (hcontinues l hl')

end Qll.Codegen

namespace Qll.Compilation

open Assembly (labels)
open Codegen (symbol stem startLabel initializeLabel temporariesLabel)
open Program (liveFunctions liveGlobals)
open Qll.Types (IsPlain Legible)

/-- The names of a sound program of plain names are legible. -/
theorem legible_nodes {w : Check.World} {s : Check.State} (hs : w.Sound s)
    (hw : w.vocabulary.accepts = IsPlain) : ∀ q ∈ s.nodes, Legible q := by
  intro q hq
  simp only [Check.State.nodes, List.mem_append, List.mem_map, Array.mem_toList_iff] at hq
  obtain ⟨g, hg, rfl⟩ | ⟨f, hf, rfl⟩ := hq
  · have hname : w.vocabulary.Names g.qualified := .inl (hs.globals g hg).qualified
    exact hname.legible hw
  · exact (hs.functions f hf).qualified.2.legible hw

/-- The labels of a linked program are distinct if the names of the program are distinct and legible. -/
theorem nodup_of_linked {s : Check.State} {live : List String} {library : Bool} {ext : Set String}
    {u u' : Codegen.Linkage} {entry : String} {result : Codegen.Result} {ds : List Assembly.Directive}
    (hu : u.Over library ext ((liveFunctions s live).map fun f => symbol f.qualified)
      ((liveGlobals s live).map fun g => symbol g.qualified))
    (hlink : Codegen.link entry result u = .ok ds u') (hdistinct : s.nodes.Nodup)
    (hlegible : ∀ q ∈ s.nodes, Legible q) : (labels ds).Nodup := by
  obtain ⟨⟨size, hframe⟩, front, init, families, hfront, hinit, hfamilies, hlabels, -⟩ :=
    Codegen.link_labels hu hlink
  -- Different names have different labels, and labels of names have no dollar sign.
  have hsymbols : (s.nodes.map symbol).Nodup :=
    hdistinct.map_on fun p hp q hq => (hlegible p hp).symbol_inj (hlegible q hq)
  have hclean (q : String) (hq : q ∈ s.nodes) : '$' ∉ (symbol q).toList := fun hc => by
    rw [symbol, String.toList_ofList] at hc
    exact (hlegible q hq).spaced.undollared (List.mem_filter.1 hc).1
  have hlives : ((liveGlobals s live).map (fun g => symbol g.qualified) ++
      (liveFunctions s live).map fun f => symbol f.qualified).Nodup := by
    refine List.Nodup.sublist ?_ hsymbols
    rw [Check.State.nodes, List.map_append, List.map_map, List.map_map]
    exact (List.filter_sublist.map _).append (List.filter_sublist.map _)
  have hblock : u'.init.frame.labels = [] ∨ u'.init.frame.labels = [temporariesLabel] := by
    rw [hframe, Codegen.Frame.labels]
    split
    · exact .inr rfl
    · exact .inl rfl
  refine hlabels.nodup_iff.2 (Codegen.nodup_parts hlives (fun n hn => ?_) hfront hinit hfamilies hblock)
  obtain ⟨q, hq, rfl⟩ : ∃ q ∈ s.nodes, symbol q = n := by
    refine List.mem_map.1 (List.Sublist.subset ?_ hn)
    rw [Check.State.nodes, List.map_append, List.map_map, List.map_map]
    exact (List.filter_sublist.map _).append (List.filter_sublist.map _)
  exact ⟨hclean q hq, (hlegible q hq).symbol_ne⟩

/-- No label is defined twice by the directives of a compilation, as long as the names that its
declarations give, and those of the members that they project types to, are made of letters, digits and
underscores. -/
theorem labels_distinct {units : List Interchange.LoadedUnit} {options : Options}
    {ds : List Assembly.Directive}
    (hplain : ∀ n ∈ Source.declsNames (units.flatMap (·.decls)), IsPlain n)
    (h : (compile units options).directives = some ds) : (labels ds).Nodup := by
  obtain ⟨s, live, u, hcourse⟩ := course_of_directives h
  obtain ⟨w, hw, hnodes, hs, hnodup, hclosed⟩ := hcourse.sound Types.plainNames hplain
  have hu := Program.over_compilations hs hnodes hclosed hcourse.compiled
  obtain ⟨entry, result, hlink, -⟩ := hcourse.linked
  exact nodup_of_linked hu hlink hnodup (legible_nodes hs hw)

/-- The entry point calls two instances of a function template, at two members of the error type. -/
def instancesProgram (first second : String) : List Interchange.LoadedUnit :=
  let here : Source.Location := ⟨"", 0, 0⟩
  let called (member : String) : Source.Stmt :=
    .expression (.call (.name "f" [.dot (.name "error" here) member here] here) [.null here] here) here
  mainProgram [.function "f" ["T"] [⟨"x", .pointer (.name "T" here) here, here⟩] none [] false false here]
    [called first, called second]

/-- The labels of two instances at plain members are distinct. -/
theorem labels_distinct_instances :
    (∀ n ∈ Source.declsNames ((instancesProgram "a" "b").flatMap (·.decls)), IsPlain n) ∧
      ∃ ds, (compile (instancesProgram "a" "b") {}).directives = some ds ∧ (labels ds).Nodup := by
  have hgives : (compile (instancesProgram "a" "b") {}).directives.isSome = true := by decide +kernel
  have hplain : ∀ n ∈ Source.declsNames ((instancesProgram "a" "b").flatMap (·.decls)), IsPlain n := by
    decide +kernel
  obtain ⟨ds, hds⟩ := Option.isSome_iff_exists.1 hgives
  exact ⟨hplain, ds, hds, labels_distinct hplain hds⟩

/-- The error type has a member of every name, and one that is not plain loses its blanks. -/
theorem spaced_member_twice : ∃ ds, (compile (instancesProgram "a b" "ab") {}).directives = some ds ∧
    ¬(labels ds).Nodup := by
  have hgives : (compile (instancesProgram "a b" "ab") {}).directives.any
      (fun ds => decide (¬(labels ds).Nodup)) = true := by decide +kernel
  obtain ⟨ds, hds, hlabels⟩ := (Option.any_eq_true _ _).1 hgives
  exact ⟨ds, hds, of_decide_eq_true hlabels⟩

end Qll.Compilation
