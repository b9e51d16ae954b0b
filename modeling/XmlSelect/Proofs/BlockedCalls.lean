import XmlSelect.Proofs.AcceptedText
import XmlSelect.Proofs.PhraseShape

/-! Calls of blocked functions in accepted expressions. The check takes a hyphen in front of a name
for a part of it, while the grammar reads it as a sign: nothing else lets a blocked call pass. -/
namespace XmlSelect.Gate

open XPath

/-- A call inside an expression has the token of its function. -/
theorem function_mem_of_inside {text name : Text} {expr : Expr} {arguments : List Expr}
    (read : parse text = .ok expr) (inside : Expr.Inside (.call name arguments) expr) :
    ∃ front position back, tokenize text = .ok (front ++ ⟨.function name, position⟩ :: back) ∧
      ((front ++ ⟨.function name, position⟩ :: back).map (·.token)).IsChain Adjacent := by
  obtain ⟨located, scanned, derived⟩ := parse_derives read
  obtain ⟨rungs, used, onLadder, stretch, part⟩ :=
    derived.coversAll (.top _) expr (List.mem_singleton_self _) _ inside
  obtain ⟨count, inner, rfl, arguments, rfl, -⟩ := part.outermost onLadder _ rfl
  have member : Token.function name ∈ located.map (·.token) :=
    stretch.subset (by simp [grouped])
  obtain ⟨⟨token, position⟩, member, rfl⟩ := List.mem_map.mp member
  obtain ⟨front, back, rfl⟩ := List.append_of_mem member
  exact ⟨front, position, back, scanned, (derived.adjacent (.top _)).1⟩

/-- A name without a prefix, or a prefix with a colon and the name behind it. -/
theorem withoutPrefix_cases {name : Text} (qualified : IsQualified name) :
    isName (withoutPrefix name) = true ∧
      (':' ∉ name ∧ withoutPrefix name = name ∨
        ∃ space, name = space ++ ':' :: withoutPrefix name) := by
  rcases qualified with lexical | ⟨space, rest, rfl, lexical, lexical'⟩
  · have absent := colon_notMem_of_isName lexical
    have same : withoutPrefix name = name := by
      unfold withoutPrefix
      split
      · rename_i found
        exact absurd (by simp [Text.append_of_breakOn? found]) absent
      · rfl
    exact ⟨by rwa [same], .inl ⟨absent, same⟩⟩
  · have same : withoutPrefix (space ++ ':' :: rest) = rest := by
      rw [withoutPrefix, Text.breakOn?_singleton (colon_notMem_of_isName lexical)]
    exact ⟨by rwa [same], .inr ⟨space, by rw [same]⟩⟩

/-- A name in front of a parenthesis is missed only if a character of a name touches it from the
left. -/
private theorem previous_of_not_callsFunction {before name after : Text}
    (lexical : isName name = true) (call : (after.dropWhile isSpace).head? = some '(')
    (silent : callsFunction (Text.toLower name)
      (Text.toLower (before ++ (name ++ after))) = false) :
    ∃ c ∈ before.getLast?, XPath.isNameChar c = true :=
  isNameChar_of_missed silent fun separated => callsFunction_append (ne_nil_of_isName lexical)
    (fun _ member => isNameChar_of_mem lexical member) separated call

/-- In an accepted expression a blocked function is called right behind a hyphen only, and without
a prefix. -/
theorem hyphen_before_blocked_call {validator : Validator} {text name : Text} {maxLength : Nat}
    {expr : Expr} {arguments : List Expr}
    (accepted : validator.validate text maxLength = .ok ()) (read : parse text = .ok expr)
    (inside : Expr.Inside (.call name arguments) expr)
    (blocked : Text.toLower (withoutPrefix name) ∈ validator.blocked) :
    ':' ∉ name ∧ ∃ front position back, tokenize text =
      .ok (front ++ ⟨.minus, position⟩ :: ⟨.function name, position + 1⟩ :: back) := by
  obtain ⟨front, position, back, scanned, chain⟩ := function_mem_of_inside read inside
  obtain ⟨before, written, after, rfl, place, lexeme, -, previous⟩ := tokenize_ok scanned
  obtain ⟨rfl, qualified, -, call⟩ := lexeme.function_ok
  have silent := (validate_ok accepted).1 _ blocked
  obtain ⟨lexical, ⟨plain, same⟩ | ⟨space, same⟩⟩ := withoutPrefix_cases qualified
  · rw [same] at lexical silent
    obtain ⟨c, last, named⟩ := previous_of_not_callsFunction lexical call silent
    rcases previous with blank | touches
    · exact absurd named (by simp [not_isNameChar_of_isBlank (blank c last)])
    · obtain ⟨others, ⟨token, start⟩, rfl, ⟨rfl, next⟩ | ⟨pointed, -⟩⟩ :=
        touches.last_cases (not_stopsName lexical after) last named
      · obtain rfl : start + 1 = position := next.trans place.symm
        exact ⟨plain, others, start, back, by simpa using scanned⟩
      · -- An operand would end there, and a call does not follow one.
        have adjacent : Adjacent token (.function written) :=
          adjacent_of_isChain (by simpa using chain)
        exact Bool.noConfusion (adjacent (Token.endsOperand_of_isPointed pointed))
  · -- The colon of the prefix is no character of a name.
    generalize withoutPrefix written = name at *
    subst same
    rw [show before ++ (space ++ ':' :: name ++ after) = before ++ space ++ [':'] ++ (name ++ after)
      by simp] at silent
    obtain ⟨c, last, named⟩ := previous_of_not_callsFunction lexical call silent
    rw [List.getLast?_concat] at last
    cases last
    exact absurd named (by decide)

/-- One more function is blocked, and called behind a hyphen. -/
theorem hyphen_before_blocked_call_fetch :
    (({} : Validator).block "Fetch".toList).validate "1 -fetch(.)".toList 0 = .ok () ∧
      ∃ front position back, tokenize "1 -fetch(.)".toList =
        .ok (front ++ ⟨.minus, position⟩ :: ⟨.function "fetch".toList, position + 1⟩ :: back) := by
  have accepted : (({} : Validator).block "Fetch".toList).validate "1 -fetch(.)".toList 0 =
      .ok () := by decide +kernel
  have shape : (match parse "1 -fetch(.)".toList with
      | .ok (.binary .sub _ (.call name _)) => name == "fetch".toList
      | _ => false) = true := by decide +kernel
  refine ⟨accepted, ?_⟩
  split at shape
  · rename_i read
    rw [← eq_of_beq shape]
    refine (hyphen_before_blocked_call accepted read
      (.child (List.mem_cons_of_mem _ (List.mem_singleton_self _)) .whole) ?_).2
    rw [eq_of_beq shape]
    decide
  · cases shape

/-- The sign in front of the call hides it from the check. -/
theorem blocked_call_accepted : ∃ expr arguments,
    ({} : Validator).validate "-doc('x')".toList 0 = .ok () ∧
    parse "-doc('x')".toList = .ok expr ∧ Expr.Inside (.call "doc".toList arguments) expr ∧
    Text.toLower (withoutPrefix "doc".toList) ∈ defaultBlocked := by
  have shape : (match parse "-doc('x')".toList with
      | .ok (.negate (.call name _)) => name == "doc".toList
      | _ => false) = true := by decide +kernel
  split at shape
  · rename_i name arguments read
    obtain rfl : name = "doc".toList := eq_of_beq shape
    exact ⟨_, arguments, by decide +kernel, read, .child (List.mem_singleton_self _) .whole,
      by decide⟩
  · cases shape

end XmlSelect.Gate
