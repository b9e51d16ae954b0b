import XmlSelect.Proofs.MarkupText

/-! Texts with line feeds for their line ends. A pattern within a line is found at the same place,
and so is the first character of a class that does not tell line ends apart. What is taken as it
stands has its pairs joined, so that it differs in the carriage returns that stand alone. -/
namespace XmlSelect.Markup

/-- A carriage return as a line feed. -/
def asFeed (c : Char) : Char := if c = '\r' then '\n' else c

/-- A text with line feeds for its line ends: first for each carriage return with a line feed behind
it, then for each one that remains. -/
def foldLineEnds (text : Text) : Text := (joinLineEnds text).map asFeed

/-- A text within a line. -/
def Lineless (text : Text) : Prop := '\r' ∉ text ∧ '\n' ∉ text

instance (text : Text) : Decidable (Lineless text) :=
  inferInstanceAs (Decidable ('\r' ∉ text ∧ '\n' ∉ text))

theorem Lineless.of_cons {c : Char} {text : Text} (plain : Lineless (c :: text)) :
    Lineless [c] ∧ Lineless text := by
  obtain ⟨noReturn, noFeed⟩ := plain
  rw [List.mem_cons, not_or] at noReturn noFeed
  exact ⟨⟨by simpa using noReturn.1, by simpa using noFeed.1⟩, noReturn.2, noFeed.2⟩

theorem Lineless.cons {c : Char} {text : Text} (first : Lineless [c]) (rest : Lineless text) :
    Lineless (c :: text) := by
  refine ⟨List.not_mem_cons_of_ne_of_not_mem ?_ rest.1,
    List.not_mem_cons_of_ne_of_not_mem ?_ rest.2⟩
  · exact fun same => first.1 (same ▸ List.mem_cons_self)
  · exact fun same => first.2 (same ▸ List.mem_cons_self)

theorem Lineless.ne_return {c : Char} (plain : Lineless [c]) : c ≠ '\r' :=
  fun isReturn => plain.1 (isReturn ▸ List.mem_cons_self)

/-- A change of characters that turns nothing but carriage returns into line feeds. -/
def TurnsReturns (feed : Char → Char) : Prop := ∀ c, feed c = c ∨ c = '\r' ∧ feed c = '\n'

namespace TurnsReturns

variable {feed : Char → Char} (turns : TurnsReturns feed)
include turns

theorem eq_of_ne {c : Char} (other : c ≠ '\r') : feed c = c :=
  (turns c).resolve_right fun isReturn => other isReturn.1

/-- A property of characters that does not tell line ends apart. -/
theorem apply {α : Type} {property : Char → α} (same : property '\r' = property '\n') (c : Char) :
    property (feed c) = property c := by
  rcases turns c with stays | ⟨rfl, turned⟩
  · rw [stays]
  · rw [turned, same]

theorem eq_iff {c other : Char} (plain : Lineless [other]) : feed c = other ↔ c = other := by
  obtain ⟨noReturn, noFeed⟩ := plain
  rw [List.mem_singleton] at noReturn noFeed
  rcases turns c with stays | ⟨rfl, turned⟩
  · rw [stays]
  · rw [turned]
    exact ⟨fun same => absurd same noFeed, fun same => absurd same noReturn⟩

theorem beq_eq {other : Char} (plain : Lineless [other]) (c : Char) :
    (feed c == other) = (c == other) := by
  rw [Bool.eq_iff_iff, beq_iff_eq, beq_iff_eq, turns.eq_iff plain]

theorem map_eq {text : Text} (plain : '\r' ∉ text) : text.map feed = text := by
  rw [List.map_congr_left fun c member =>
    turns.eq_of_ne fun isReturn => plain (isReturn ▸ member)]
  exact List.map_id' text

theorem dropPrefix?_map {pattern : Text} (plain : Lineless pattern) (text : Text) :
    Text.dropPrefix? pattern (text.map feed) =
      (Text.dropPrefix? pattern text).map fun after => after.map feed := by
  induction pattern generalizing text with
  | nil => rfl
  | cons first pattern ih =>
    obtain ⟨here, plain⟩ := plain.of_cons
    cases text with
    | nil => rfl
    | cons c rest =>
      have same : first = feed c ↔ first = c := by rw [eq_comm, turns.eq_iff here, eq_comm]
      simp only [List.map_cons, Text.dropPrefix?, same, ih plain]
      split
      · rfl
      · rfl

/-- What is within a line is found at the same place. -/
theorem breakOn?_map {pattern : Text} (plain : Lineless pattern) (text : Text) :
    Text.breakOn? pattern (text.map feed) =
      (Text.breakOn? pattern text).map fun parts => (parts.1.map feed, parts.2.map feed) := by
  induction text with
  | nil => cases pattern <;> rfl
  | cons c rest ih =>
    have start := turns.dropPrefix?_map plain (c :: rest)
    rw [List.map_cons] at start ⊢
    cases found : Text.dropPrefix? pattern (c :: rest) with
    | some after =>
      rw [found] at start
      rw [Text.breakOn?, start, Text.breakOn?, found]
      rfl
    | none =>
      rw [found] at start
      rw [Text.breakOn?_cons_of_none start, Text.breakOn?_cons_of_none found, ih]
      cases Text.breakOn? pattern rest <;> rfl

theorem lineless_of_map {text : Text} (plain : Lineless (text.map feed)) : Lineless text := by
  have other {c : Char} (member : c ∈ text) : feed c ≠ '\r' ∧ feed c ≠ '\n' :=
    ⟨fun same => plain.1 (same ▸ List.mem_map_of_mem member),
      fun same => plain.2 (same ▸ List.mem_map_of_mem member)⟩
  refine ⟨fun member => ?_, fun member => ?_⟩
  · rcases turns '\r' with stays | ⟨-, turned⟩
    · exact (other member).1 stays
    · exact (other member).2 turned
  · exact (other member).2 (turns.eq_of_ne (by decide))

/-- What is found by texts without line ends only is found by the same texts. -/
theorem find_map {α : Type} {find? : Text → Option α}
    (known : ∀ text value, find? text = some value → Lineless text) (text : Text) :
    find? (text.map feed) = find? text := by
  by_cases plain : Lineless text
  · rw [turns.map_eq plain.1]
  · have absent {other : Text} (unplain : ¬Lineless other) : find? other = none :=
      Option.eq_none_iff_forall_ne_some.mpr fun value found => unplain (known other value found)
    rw [absent plain, absent (mt (turns.lineless_of_map) plain)]

theorem map_beq_eq {wanted : Text} (plain : Lineless wanted) (text : Text) :
    (text.map feed == wanted) = (text == wanted) := by
  rw [Bool.eq_iff_iff, beq_iff_eq, beq_iff_eq]
  constructor
  · rintro rfl
    exact (turns.map_eq (turns.lineless_of_map plain).1).symm
  · rintro rfl
    exact turns.map_eq plain.1

theorem includes_map {pattern : Text} (plain : Lineless pattern)
    (text : Text) : Text.includes pattern (text.map feed) = Text.includes pattern text := by
  rw [Text.includes, turns.breakOn?_map plain, Option.isSome_map]
  rfl

theorem endsWith_map {last : Char} (plain : Lineless [last])
    (text : Text) : Text.endsWith [last] (text.map feed) = Text.endsWith [last] text := by
  rw [Bool.eq_iff_iff, Text.endsWith, Text.endsWith, List.isSuffixOf_iff_suffix,
    List.isSuffixOf_iff_suffix, List.singleton_suffix_iff_getLast?_eq_some,
    List.singleton_suffix_iff_getLast?_eq_some, List.getLast?_map]
  cases text.getLast? with
  | none => simp
  | some c => simp only [Option.map_some, Option.some.injEq, turns.eq_iff plain]

end TurnsReturns

theorem asFeed_turns : TurnsReturns asFeed := by
  intro c
  unfold asFeed
  split
  · exact .inr ⟨‹_›, rfl⟩
  · exact .inl rfl

theorem asFeed_ne_return (c : Char) : asFeed c ≠ '\r' := by
  unfold asFeed
  split
  · decide
  · assumption

theorem map_asFeed_eq_iff {text : Text} : text.map asFeed = text ↔ '\r' ∉ text := by
  refine ⟨fun same member => ?_, asFeed_turns.map_eq⟩
  rw [← same] at member
  obtain ⟨c, -, isReturn⟩ := List.mem_map.mp member
  exact asFeed_ne_return c isReturn

theorem id_turns : TurnsReturns id := fun _ => .inl rfl

section Texts

variable {c : Char} {rest text pattern : Text}

@[simp] theorem foldLineEnds_nil : foldLineEnds [] = [] := rfl

@[simp] theorem foldLineEnds_pair (rest : Text) :
    foldLineEnds ('\r' :: '\n' :: rest) = '\n' :: foldLineEnds rest := rfl

theorem foldLineEnds_cons (apart : ∀ later, c = '\r' → rest = '\n' :: later → False) :
    foldLineEnds (c :: rest) = asFeed c :: foldLineEnds rest := by
  rw [foldLineEnds, joinLineEnds.eq_2 _ _ apart]
  rfl

theorem foldLineEnds_cons_of_ne (other : c ≠ '\r') (rest : Text) :
    foldLineEnds (c :: rest) = c :: foldLineEnds rest := by
  rw [foldLineEnds_cons fun _ isReturn _ => other isReturn, asFeed_turns.eq_of_ne other]

/-- Whatever becomes of the text behind it, the first character stays or becomes a line feed. -/
theorem foldLineEnds_first (c : Char) (rest : Text) :
    ∃ behind, foldLineEnds (c :: rest) = asFeed c :: behind ∧
      (c ≠ '\r' → behind = foldLineEnds rest) := by
  by_cases apart : ∀ later, c = '\r' → rest = '\n' :: later → False
  · exact ⟨_, foldLineEnds_cons apart, fun _ => rfl⟩
  · simp only [not_forall] at apart
    obtain ⟨later, rfl, rfl, -⟩ := apart
    exact ⟨_, rfl, absurd rfl⟩

/-- A character that is no line end stands at the front of both texts or of neither. -/
theorem first_foldLineEnds {wanted : Char} (plain : Lineless [wanted]) (text : Text) :
    (∃ rest, text = wanted :: rest ∧ foldLineEnds text = wanted :: foldLineEnds rest) ∨
      (∀ rest, text ≠ wanted :: rest) ∧ ∀ rest, foldLineEnds text ≠ wanted :: rest := by
  cases text with
  | nil => exact .inr ⟨nofun, nofun⟩
  | cons c rest =>
    by_cases same : c = wanted
    · subst same
      exact .inl ⟨rest, rfl, foldLineEnds_cons_of_ne plain.ne_return rest⟩
    · obtain ⟨behind, folded, -⟩ := foldLineEnds_first c rest
      refine .inr ⟨fun _ here => same (List.cons.inj here).1, fun _ here => same ?_⟩
      exact (asFeed_turns.eq_iff plain).mp (List.cons.inj (folded.symm.trans here)).1

theorem head?_foldLineEnds (text : Text) : (foldLineEnds text).head? = text.head?.map asFeed := by
  cases text with
  | nil => rfl
  | cons c rest =>
    obtain ⟨behind, same, -⟩ := foldLineEnds_first c rest
    rw [same]
    rfl

theorem any_head?_foldLineEnds {property : Char → Bool} (same : property '\r' = property '\n')
    (text : Text) : (foldLineEnds text).head?.any property = text.head?.any property := by
  rw [head?_foldLineEnds, Option.any_map]
  exact congrArg (text.head?.any ·) (funext (asFeed_turns.apply same))

theorem dropWhile_foldLineEnds {property : Char → Bool} (same : property '\r' = property '\n')
    (text : Text) : (foldLineEnds text).dropWhile property =
      foldLineEnds (text.dropWhile property) := by
  fun_induction joinLineEnds text with
  | case1 rest ih =>
    cases holds : property '\r' with
    | true => simp [holds, ← same, ih]
    | false => simp [holds, ← same]
  | case2 c rest apart ih =>
    rw [foldLineEnds_cons apart, List.dropWhile_cons, List.dropWhile_cons,
      asFeed_turns.apply same, ih]
    split
    · rfl
    · rw [foldLineEnds_cons apart]
  | case3 => rfl

theorem takeWhile_foldLineEnds {property : Char → Bool} (noReturn : property '\r' = false)
    (noFeed : property '\n' = false) (text : Text) :
    (foldLineEnds text).takeWhile property = text.takeWhile property := by
  fun_induction joinLineEnds text with
  | case1 rest ih => simp [noReturn, noFeed]
  | case2 c rest apart ih =>
    rw [foldLineEnds_cons apart, List.takeWhile_cons, List.takeWhile_cons,
      asFeed_turns.apply (noReturn.trans noFeed.symm), ih]
    split
    · rename_i holds
      rw [asFeed_turns.eq_of_ne]
      rintro rfl
      exact absurd (noReturn.symm.trans holds) Bool.false_ne_true
    · rfl
  | case3 => rfl

theorem dropPrefix?_foldLineEnds (plain : Lineless pattern) (text : Text) :
    Text.dropPrefix? pattern (foldLineEnds text) =
      (Text.dropPrefix? pattern text).map foldLineEnds := by
  induction pattern generalizing text with
  | nil => rfl
  | cons first pattern ih =>
    obtain ⟨here, plain⟩ := plain.of_cons
    cases text with
    | nil => rfl
    | cons c rest =>
      by_cases same : first = c
      · subst same
        rw [foldLineEnds_cons_of_ne here.ne_return, Text.dropPrefix?, if_pos rfl, Text.dropPrefix?,
          if_pos rfl, ih plain]
      · obtain ⟨behind, folded, -⟩ := foldLineEnds_first c rest
        have differ : first ≠ asFeed c := fun folded =>
          same ((asFeed_turns.eq_iff here).mp folded.symm).symm
        rw [folded, Text.dropPrefix?, if_neg differ, Text.dropPrefix?, if_neg same]
        rfl

theorem dropPrefix?_lineEnd (plain : Lineless pattern) (nonempty : pattern ≠ [])
    (lineEnd : ¬Lineless [c]) (rest : Text) : Text.dropPrefix? pattern (c :: rest) = none := by
  cases pattern with
  | nil => exact absurd rfl nonempty
  | cons first pattern => exact if_neg fun (same : first = c) => lineEnd (same ▸ plain.of_cons.1)

/-- A delimiter within a line is found at the same place. -/
theorem breakOn?_foldLineEnds (plain : Lineless pattern) (nonempty : pattern ≠ []) (text : Text) :
    Text.breakOn? pattern (foldLineEnds text) =
      (Text.breakOn? pattern text).map fun parts =>
        (foldLineEnds parts.1, foldLineEnds parts.2) := by
  fun_induction joinLineEnds text with
  | case1 rest ih =>
    have passes {c : Char} (lineEnd : ¬Lineless [c]) (rest : Text) :=
      Text.breakOn?_cons_of_none (dropPrefix?_lineEnd plain nonempty lineEnd rest)
    rw [foldLineEnds_pair, passes (by decide), passes (by decide), passes (by decide), ih]
    cases Text.breakOn? pattern rest <;> rfl
  | case2 c rest apart ih =>
    have start := dropPrefix?_foldLineEnds plain (c :: rest)
    rw [foldLineEnds_cons apart] at start ⊢
    cases found : Text.dropPrefix? pattern (c :: rest) with
    | some after =>
      rw [found] at start
      rw [Text.breakOn?, start, Text.breakOn?, found]
      rfl
    | none =>
      rw [found] at start
      rw [Text.breakOn?_cons_of_none start, Text.breakOn?_cons_of_none found, ih]
      cases later : Text.breakOn? pattern rest with
      | none => rfl
      | some parts =>
        obtain ⟨before, after⟩ := parts
        have front : foldLineEnds (c :: before) = asFeed c :: foldLineEnds before :=
          foldLineEnds_cons fun further isReturn here => by
            have parts := Text.append_of_breakOn? later
            rw [here] at parts
            exact apart _ isReturn parts
        simp only [Option.map_some, front]
  | case3 =>
    have absent : Text.breakOn? pattern [] = none := if_neg (by simpa using nonempty)
    rw [foldLineEnds_nil, absent]
    rfl

theorem forall_mem_foldLineEnds {property : Char → Bool} (same : property '\r' = property '\n')
    (text : Text) :
    (∀ c ∈ foldLineEnds text, property c = true) ↔ ∀ c ∈ text, property c = true := by
  fun_induction joinLineEnds text with
  | case1 rest ih =>
    rw [foldLineEnds_pair, List.forall_mem_cons, List.forall_mem_cons, List.forall_mem_cons, ih,
      same]
    exact and_self_left.symm
  | case2 c rest apart ih =>
    rw [foldLineEnds_cons apart, List.forall_mem_cons, List.forall_mem_cons,
      asFeed_turns.apply same, ih]
  | case3 => rfl

theorem not_mem_foldLineEnds (text : Text) : '\r' ∉ foldLineEnds text := by
  intro member
  obtain ⟨c, -, same⟩ := List.mem_map.mp member
  exact asFeed_ne_return c same

/-- What is read of a text with line feeds for its line ends has no line ends to join. -/
theorem joinLineEnds_foldLineEnds (text : Text) :
    joinLineEnds (foldLineEnds text) = foldLineEnds text :=
  joinLineEnds_eq_self (not_mem_foldLineEnds text)

end Texts

/-- What a text that is taken as it stands becomes: carriage returns may become line feeds, and do
where one stands without a line feed behind it. -/
structure Feeds (feed : Char → Char) (source : Text) : Prop where
  turns : TurnsReturns feed
  lone : ∀ behind, '\r' :: behind <:+ source → behind.head? ≠ some '\n' → feed '\r' = '\n'

namespace Feeds

variable {feed : Char → Char} {source part : Text}

theorem asFeed (source : Text) : Feeds asFeed source := ⟨asFeed_turns, fun _ _ _ => rfl⟩

theorem of_suffix (feeds : Feeds feed source) (suffix : part <:+ source) : Feeds feed part :=
  ⟨feeds.turns, fun behind here => feeds.lone behind (here.trans suffix)⟩

/-- Of a part in front of a delimiter the line ends are joined; the carriage returns that are left
become what they have to. -/
theorem foldLineEnds_eq (feeds : Feeds feed source) {body behind : Text}
    (parts : body ++ behind = source) (ends : behind.head? ≠ some '\n') :
    foldLineEnds body = (joinLineEnds body).map feed := by
  fun_induction joinLineEnds body generalizing source with
  | case1 rest ih =>
    have further := ih (feeds.of_suffix (parts ▸ List.suffix_append ['\r', '\n'] _)) rfl
    rw [foldLineEnds_pair, further, List.map_cons, feeds.turns.eq_of_ne (by decide)]
  | case2 c rest apart ih =>
    have further := ih (feeds.of_suffix (parts ▸ List.suffix_cons c _)) rfl
    have first : feed c = Markup.asFeed c := by
      by_cases isReturn : c = '\r'
      · subst isReturn
        refine feeds.lone (rest ++ behind) (parts ▸ List.suffix_refl _) fun feedNext => ?_
        cases rest with
        | nil => exact ends feedNext
        | cons next rest => exact apart rest rfl (by cases feedNext; rfl)
      · rw [feeds.turns.eq_of_ne isReturn, asFeed_turns.eq_of_ne isReturn]
    rw [foldLineEnds_cons apart, further, List.map_cons, first]
  | case3 => rfl

end Feeds

end XmlSelect.Markup
