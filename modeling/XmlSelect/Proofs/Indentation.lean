import XmlSelect.Proofs.DocumentRoundTrip

/-! Indented documents. What is written with indentation is what is written without it for the same
nodes with white space between them; the white space is a node of its own wherever it is put, since
it is put between nodes of which none is character data. So an indented document is read back with
that white space, and nothing else is changed. -/
namespace XmlSelect

/-- Text of white space that is written as it stands: it has no carriage return. -/
def Ignorable (text : Text) : Prop := ∀ c ∈ text, c ∈ [' ', '\t', '\n']

instance (text : Text) : Decidable (Ignorable text) :=
  List.decidableBAll (· ∈ [' ', '\t', '\n']) text

/-- White space between two nodes. -/
structure IsGap (text : Text) : Prop where
  nonempty : text ≠ []
  blank : Ignorable text

namespace Forest

/-- Some siblings with white space in front of each and behind the last. -/
inductive Apart : Forest → Forest → Prop
  | nil {gap : Text} (blank : IsGap gap) : Apart .nil (.leaf (.text gap) .nil)
  | leaf {gap : Text} {rest rest' : Forest} (blank : IsGap gap) (first : Leaf)
      (behind : Apart rest rest') : Apart (.leaf first rest) (.leaf (.text gap) (.leaf first rest'))
  | element {gap : Text} {rest rest' : Forest} (blank : IsGap gap) (name : Text)
      (attributes : List Attribute) (content : Forest) (behind : Apart rest rest') :
      Apart (.element name attributes content rest)
        (.leaf (.text gap) (.element name attributes content rest'))

/-- Some siblings with white space around the children of those elements, at any depth, that have
children but no character data among them. -/
inductive Spread : Forest → Forest → Prop
  | nil : Spread .nil .nil
  | leaf (first : Leaf) {rest rest' : Forest} (behind : Spread rest rest') :
      Spread (.leaf first rest) (.leaf first rest')
  | kept {name : Text} {attributes : List Attribute} {content content' rest rest' : Forest}
      (text : content.isEmpty = true ∨ content.holdsText = true) (inside : Spread content content')
      (behind : Spread rest rest') :
      Spread (.element name attributes content rest) (.element name attributes content' rest')
  | spread {name : Text} {attributes : List Attribute}
      {content content' spaced rest rest' : Forest} (filled : content.isEmpty = false)
      (markup : content.holdsText = false) (inside : Spread content content')
      (apart : Apart content' spaced) (behind : Spread rest rest') :
      Spread (.element name attributes content rest) (.element name attributes spaced rest')

/-- Siblings behind a run of text, of which there may be none. -/
def behindText (run : Text) (forest : Forest) : Forest :=
  if run.isEmpty then forest else .leaf (.text run) forest

/-- Siblings with the white space that indentation puts between them, as nodes: `gap` in front of
each, and `closing` behind the last. -/
def indented (style : Markup.Style) (depth : Nat) (gap closing : Text) : Forest → Forest
  | .nil => behindText closing .nil
  | .leaf first rest => behindText gap (.leaf first (rest.indented style depth gap closing))
  | .element name attributes content rest =>
    let pretty := !content.isEmpty && !content.holdsText
    let inner := if pretty then Markup.newLine style (depth + 1) else []
    let outer := if pretty then Markup.newLine style depth else []
    behindText gap (.element name attributes (content.indented style (depth + 1) inner outer)
      (rest.indented style depth gap closing))

theorem isEmpty_indented {style : Markup.Style} {depth : Nat} {gap closing : Text} {forest : Forest}
    (filled : forest.isEmpty = false) :
    (forest.indented style depth gap closing).isEmpty = false := by
  cases forest with
  | nil => cases filled
  | _ => rw [indented, behindText]; split <;> rfl

end Forest

namespace Markup

section Printing

variable {style : Style} {run tail : Text}

theorem isGap_newLine (blank : Ignorable style.indentText) (depth : Nat) :
    IsGap (newLine style depth) := by
  refine ⟨List.cons_ne_nil _ _, List.forall_mem_cons.mpr ⟨by decide, fun c member => ?_⟩⟩
  obtain ⟨line, given, inside⟩ := List.mem_flatten.mp member
  exact blank c ((List.eq_of_mem_replicate given) ▸ inside)

/-- White space is written as it stands. -/
theorem flatMap_escapeText (blank : Ignorable run) : run.flatMap escapeText = run := by
  induction run with
  | nil => rfl
  | cons c run ih =>
    obtain ⟨first, blank⟩ := List.forall_mem_cons.mp blank
    have here : escapeText c = [c] := by
      simp only [List.mem_cons, List.not_mem_nil, or_false] at first
      rcases first with rfl | rfl | rfl <;> rfl
    rw [List.flatMap_cons, here, ih blank, List.singleton_append]

theorem printForest_behindText (blank : Ignorable run) (level : Nat) (forest : Forest) :
    printForest {} level [] (.behindText run forest) = run ++ printForest {} level [] forest := by
  rw [Forest.behindText]
  split
  · rename_i none
    rw [List.isEmpty_iff.mp none, List.nil_append]
  · exact congrArg (· ++ printForest {} level [] forest) (flatMap_escapeText blank)

/-- The white space that is put around the children of an element. -/
theorem printForest_pretty (indent : style.indent = true) (depth : Nat) (gap name : Text)
    (attributes : List Attribute) {children : Forest} (filled : children.isEmpty = false)
    (rest : Forest) :
    printForest style depth gap (.element name attributes children rest) ++ tail =
      gap ++ '<' :: (printStartTag name attributes false ++
        (printForest style (depth + 1)
            (if !children.holdsText then newLine style (depth + 1) else []) children ++
          ((if !children.holdsText then newLine style depth else []) ++
            '<' :: '/' :: (name ++ ['>'] ++ (printForest style depth gap rest ++ tail))))) := by
  rw [printForest, filled, indent]
  simp [printStartTag, tagEnd]

/-- Indentation is written as white space between the nodes would be. -/
theorem printForest_indented (indent : style.indent = true) (blank : Ignorable style.indentText)
    (forest : Forest) : ∀ (depth level : Nat) (gap closing tail : Text), Ignorable gap →
      Ignorable closing → printForest style depth gap forest ++ (closing ++ tail) =
        printForest {} level [] (forest.indented style depth gap closing) ++ tail := by
  induction forest with
  | nil =>
    intro depth level gap closing tail _ last
    rw [Forest.indented, printForest_behindText last]
    simp [printForest]
  | leaf first rest ih =>
    intro depth level gap closing tail each last
    rw [Forest.indented, printForest_behindText each, printForest, printForest]
    simp only [List.nil_append, List.append_assoc, ih depth level gap closing tail each last]
  | element name attributes content rest inside ih =>
    intro depth level gap closing tail each last
    have behind := ih depth level gap closing tail each last
    rw [Forest.indented, printForest_behindText each, List.append_assoc]
    cases empty : content.isEmpty with
    | true =>
      obtain rfl : content = .nil := by
        cases content with
        | nil => rfl
        | _ => cases empty
      have kept : Forest.indented style (depth + 1) [] [] .nil = .nil := rfl
      simp only [Bool.not_true, Bool.false_and, Bool.false_eq_true, if_false, kept]
      rw [printForest_empty, ← behind, printForest]
      simp [printStartTag, tagEnd, Forest.isEmpty]
    | false =>
      have room (depth : Nat) :
          Ignorable (if !content.holdsText then newLine style depth else []) := by
        split
        · exact (isGap_newLine blank depth).blank
        · exact List.forall_mem_nil _
      rw [printForest_pretty indent depth gap name attributes empty]
      simp only [Bool.not_false, Bool.true_and]
      rw [printForest_filled level name attributes (Forest.isEmpty_indented empty),
        ← inside (depth + 1) (level + 1) _ _ _ (room _) (room _), ← behind]

end Printing

section Shape

variable {style : Style} {depth : Nat} {gap closing : Text} {forest : Forest}

theorem height_behindText (run : Text) (forest : Forest) :
    (Forest.behindText run forest).height = forest.height := by
  rw [Forest.behindText]
  split <;> rfl

theorem height_indented : (forest.indented style depth gap closing).height = forest.height := by
  induction forest generalizing depth gap closing with
  | nil => exact height_behindText closing .nil
  | leaf first rest ih => rw [Forest.indented, height_behindText, Forest.height, ih, Forest.height]
  | element name attributes content rest inside ih =>
    rw [Forest.indented, height_behindText, Forest.height, inside, ih, Forest.height]

theorem writableLeaf_of_gap (blank : IsGap gap) : WritableLeaf (.text gap) := by
  refine ⟨⟨blank.nonempty, fun c member => ?_⟩, nofun⟩
  have each := blank.blank c member
  simp only [List.mem_cons, List.not_mem_nil, or_false] at each
  rcases each with rfl | rfl | rfl <;> decide

/-- White space is put between nodes of which none is character data, or nowhere. -/
inductive Spaces : (gap closing : Text) → Forest → Prop
  | between {gap closing : Text} {forest : Forest} (each : IsGap gap) (last : IsGap closing)
      (markup : forest.holdsText = false) : Spaces gap closing forest
  | nowhere {forest : Forest} : Spaces [] [] forest

theorem behindText_gap (blank : IsGap gap) (forest : Forest) :
    Forest.behindText gap forest = .leaf (.text gap) forest :=
  if_neg (by simpa using blank.nonempty)

/-- The white space around the children of an element. -/
theorem spaces_children (blank : Ignorable style.indentText) (depth : Nat) (children : Forest) :
    Spaces (if !children.isEmpty && !children.holdsText then newLine style (depth + 1) else [])
      (if !children.isEmpty && !children.holdsText then newLine style depth else []) children := by
  split
  · rename_i pretty
    exact .between (isGap_newLine blank _) (isGap_newLine blank _) (by simp_all)
  · exact .nowhere

theorem isRun_of_markup {leaf : Leaf} (markup : leaf.isText = false) : leaf.isRun = false := by
  cases leaf with
  | text => cases markup
  | _ => rfl

/-- Indentation brings no two runs of text together. -/
theorem normal_indented (blank : Ignorable style.indentText) (normal : forest.Normal WritableLeaf)
    (spaces : Spaces gap closing forest) :
    (forest.indented style depth gap closing).Normal WritableLeaf ∧
      (gap = [] → (forest.indented style depth gap closing).startsRun = forest.startsRun) := by
  induction forest generalizing depth gap closing with
  | nil =>
    cases spaces with
    | nowhere => exact ⟨trivial, fun _ => rfl⟩
    | between each last =>
      rw [Forest.indented, behindText_gap last]
      exact ⟨⟨writableLeaf_of_gap last, fun _ => rfl, trivial⟩,
        fun none => absurd none each.nonempty⟩
  | leaf first rest ih =>
    obtain ⟨writable, next, behind⟩ := normal
    cases spaces with
    | nowhere =>
      obtain ⟨further, same⟩ := ih behind .nowhere
      exact ⟨⟨writable, fun run => (same rfl).trans (next run), further⟩, fun _ => rfl⟩
    | between each last markup =>
      rw [Forest.holdsText, Bool.or_eq_false_iff] at markup
      have plain := isRun_of_markup markup.1
      rw [Forest.indented, behindText_gap each]
      exact ⟨⟨writableLeaf_of_gap each, fun _ => plain, writable,
        fun run => absurd run (by simp [plain]), (ih behind (.between each last markup.2)).1⟩,
        fun none => absurd none each.nonempty⟩
  | element name attributes content rest inside ih =>
    obtain ⟨tag, children, behind⟩ := normal
    have here (level : Nat) : (content.indented style level _ _).Normal WritableLeaf :=
      (inside children (spaces_children blank depth content)).1
    cases spaces with
    | nowhere => exact ⟨⟨tag, here _, (ih behind .nowhere).1⟩, fun _ => rfl⟩
    | between each last markup =>
      rw [Forest.indented, behindText_gap each]
      exact ⟨⟨writableLeaf_of_gap each, fun _ => rfl, tag, here _,
        (ih behind (.between each last markup)).1⟩, fun none => absurd none each.nonempty⟩

/-- The white space that indentation puts between siblings is all that it adds to them. -/
theorem apart_indented (each : IsGap gap) (last : IsGap closing) (forest : Forest) :
    (forest.indented style depth [] []).Apart (forest.indented style depth gap closing) := by
  induction forest with
  | nil =>
    rw [Forest.indented, Forest.indented, behindText_gap last]
    exact .nil last
  | leaf first rest ih =>
    rw [Forest.indented, Forest.indented, behindText_gap each]
    exact .leaf each first ih
  | element name attributes content rest _ ih =>
    rw [Forest.indented, Forest.indented, behindText_gap each]
    exact .element each name attributes _ ih

/-- Indentation is white space around the children of elements without character data. -/
theorem spread_indented (blank : Ignorable style.indentText) (depth : Nat) (forest : Forest) :
    forest.Spread (forest.indented style depth [] []) := by
  induction forest generalizing depth with
  | nil => exact .nil
  | leaf first rest ih => exact .leaf first (ih depth)
  | element name attributes content rest inside ih =>
    rw [Forest.indented]
    cases pretty : !content.isEmpty && !content.holdsText with
    | false =>
      refine .kept ?_ (inside (depth + 1)) (ih depth)
      cases empty : content.isEmpty with
      | true => exact .inl rfl
      | false => exact .inr (by simpa [empty] using pretty)
    | true =>
      rw [Bool.and_eq_true, Bool.not_eq_true', Bool.not_eq_true'] at pretty
      exact .spread pretty.1 pretty.2 (inside (depth + 1))
        (apart_indented (isGap_newLine blank _) (isGap_newLine blank _) content) (ih depth)

end Shape

section Documents

variable {style : Style} {limit : Nat} {declared rooted : Bool} {forest : Forest}

/-- Indentation inside the element at the top leaves what stands at the top in order. -/
theorem topmost_indented (blank : Ignorable style.indentText)
    (top : Topmost WritableLeaf limit declared rooted forest) :
    Topmost WritableLeaf limit declared rooted (forest.indented style 0 [] []) := by
  induction top with
  | nil => exact .nil
  | leaf fits markup plain _ ih => exact .leaf fits markup plain ih
  | doctype proper _ ih => exact .doctype proper ih
  | @element declared name attributes content rest normal _ ih =>
    refine .element ⟨normal.tag, ?_, ?_⟩ ih
    · exact (normal_indented blank normal.content (spaces_children blank 0 content)).1
    · exact height_indented.trans_lt normal.height

theorem doctypes_indented :
    (forest.indented style 0 [] []).doctypes = forest.doctypes := by
  induction forest with
  | nil => rfl
  | leaf first rest ih => exact congrArg (fun behind => ite _ (first :: behind) behind) ih
  | element name attributes content rest _ ih => exact ih

/-- Without a document type declaration, what is read back at the top is what was written. -/
theorem joined_of_topmost (top : Topmost WritableLeaf limit declared rooted forest)
    (undeclared : forest.doctypes = []) : forest.joined = forest := by
  induction top with
  | nil => rfl
  | leaf fits _ plain _ ih =>
    rw [Forest.doctypes, plain, if_neg Bool.false_ne_true] at undeclared
    rw [Forest.joined, fits.joined, ih undeclared]
  | doctype => cases undeclared
  | element normal _ ih =>
    rw [Forest.joined, joined_of_writable normal.content, ih undeclared]

theorem printTop_indented (indent : style.indent = true) (blank : Ignorable style.indentText) :
    printTop style forest = printTop {} (forest.indented style 0 [] []) := by
  induction forest with
  | nil => rfl
  | leaf first rest ih => exact congrArg (printLeaf first ++ '\n' :: ·) ih
  | element name attributes content rest _ ih =>
    have inside := printForest_indented indent blank (.element name attributes content .nil) 0 0
      [] [] [] (List.forall_mem_nil _) (List.forall_mem_nil _)
    rw [List.append_nil, List.append_nil, List.append_nil] at inside
    rw [printTop, inside, ih]
    rfl

/-- What is written without a declaration for nodes at the top is read back. -/
theorem parseText_printTop {options : Options} {content : Forest}
    (top : Topmost WritableLeaf options.maxDepth false false content)
    (undeclared : content.doctypes = []) :
    ∃ again, parseText options (printTop {} content) = .ok again ∧
      again.document.content = content := by
  have proper := top.imp fun _ writable => writable.proper
  obtain ⟨progress, read, together⟩ :=
    topLevel_printTop proper (by rw [undeclared]; nofun) {} rfl rfl
  rw [joined_of_topmost top undeclared] at together
  have unmarked : withoutMark (printTop {} content) = printTop {} content := by
    obtain none | ⟨body, written⟩ := printTop_head proper
    · rw [none]
      rfl
    · rw [written]
      rfl
  refine ⟨progress.reading none (printTop {} content), ?_, ?_⟩
  · rw [parseText_eq, unmarked]
    exact parse_eq_ok_iff.mpr ⟨_, progress, optionalDeclaration_printTop proper,
      by rw [rest_skipBlanks_printTop proper]; exact read, rfl⟩
  · exact (congrArg Forest.reverse together).trans content.reverse_reverse

/-- What is written with indentation for a document that was read is read as the same nodes with
white space around the children of those elements that have children but no character data among
them, if there was no carriage return in the text and no document type declaration. -/
theorem parseText_print_indented {source indentText : Text} {reading : Reading}
    (plain : '\r' ∉ source) (read : parseText {} source = .ok reading)
    (undeclared : reading.document.content.doctypes = []) (blank : Ignorable indentText) :
    ∃ again, parseText {} (print ⟨true, indentText, false⟩ reading.document) = .ok again ∧
      reading.document.content.Spread again.document.content := by
  have top : Topmost WritableLeaf _ false false reading.document.content :=
    parse_topmost ((parseText_eq {} source).symm.trans read) nofun
      (fun nonempty held => ⟨⟨nonempty, held⟩, nofun⟩) fun leaf => ⟨leaf.proper, fun member =>
        plain ((withoutMark_suffix source).subset (leaf.inside member))⟩
  have spaced : Topmost WritableLeaf _ false false
      (reading.document.content.indented ⟨true, indentText, false⟩ 0 [] []) :=
    topmost_indented blank top
  have text : print ⟨true, indentText, false⟩ reading.document = printTop {}
      (reading.document.content.indented ⟨true, indentText, false⟩ 0 [] []) := by
    rw [print, if_neg Bool.false_ne_true, List.nil_append, printTop_indented rfl blank]
  obtain ⟨again, reread, content⟩ :=
    parseText_printTop spaced (doctypes_indented.trans undeclared)
  exact ⟨again, text ▸ reread, content ▸ spread_indented blank 0 reading.document.content⟩

/-- Elements without character data around and inside one with it, and a section. -/
theorem parseText_print_indented_mixed :
    let source :=
      "<?xml version='1.0'?><!--a--><r><b/><m>x<e><f/></e></m><c><![CDATA[]]></c></r>".toList
    ∃ reading again, '\r' ∉ source ∧ parseText {} source = .ok reading ∧
      reading.document.content.doctypes = [] ∧ Ignorable ['\t', ' '] ∧
      parseText {} (print ⟨true, ['\t', ' '], false⟩ reading.document) = .ok again ∧
      reading.document.content.Spread again.document.content := by
  intro source
  have plain : '\r' ∉ source := by decide
  have blank : Ignorable ['\t', ' '] := by decide
  have doctypes : (parseText {} source).toOption.map (·.document.content.doctypes) = some [] := by
    decide +kernel
  cases read : parseText {} source with
  | error => rw [read] at doctypes; cases doctypes
  | ok reading =>
    rw [read] at doctypes
    have undeclared := Option.some.inj doctypes
    obtain ⟨again, reread, spread⟩ := parseText_print_indented plain read undeclared blank
    exact ⟨reading, again, plain, rfl, undeclared, blank, reread, spread⟩

end Documents

end Markup

end XmlSelect
