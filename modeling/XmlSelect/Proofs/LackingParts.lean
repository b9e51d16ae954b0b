import XmlSelect.Proofs.BreakingOff
import XmlSelect.Proofs.DeclaredEntities
import XmlSelect.Proofs.ShiftedReading

/-! Two ways to go on where a part is lacking. If they come to the same there, then so do the whole
texts: what is in front is read to the same in both, and what is behind follows. -/
namespace XmlSelect.Markup

/-- Three ledgers at one place: with the text breaking off there, and with it going on in two ways. -/
structure Setting.Abreast (setting : Setting) (ledger ledger' ledger'' : Ledger) : Prop where
  allowed : ledger.expansions ≤ setting.options.maxExpansions
  second : Shifted 0 0 ledger ledger'
  third : Shifted 0 0 ledger ledger''

theorem Setting.Abreast.apart {setting : Setting} {ledger ledger' ledger'' : Ledger}
    (abreast : setting.Abreast ledger ledger' ledger'') : Shifted 0 0 ledger' ledger'' :=
  Eq.trans abreast.third abreast.second.symm

/-- Where a text breaks off for the reason, what is read of the one way to go on is read of the
other. -/
def Setting.Replaces (setting : Setting) (less more : Nat) (tail tail' : Text) : Fault → Prop
  | .unquotedAttribute => ∀ ledger ledger', Shifted 0 0 ledger ledger' →
      Follows setting less more [] (attributeValue setting ledger tail)
        (attributeValue setting ledger' tail')
  | .unclosedElement _ => ∀ whole whole' inner outer pending ledger ledger'
      (within : tail <:+ whole) (within' : tail' <:+ whole'), Shifted 0 0 ledger ledger' →
        Follows setting less more [] (content setting whole inner outer pending ledger tail within)
          (content setting whole' inner outer pending ledger' tail' within')
  | .missingRoot => ∃ root root', tail = '<' :: root ∧ tail' = '<' :: root' ∧
      ∀ ledger ledger', Shifted 0 0 ledger ledger' →
        Follows setting less more [] (rootElement setting ledger root)
          (rootElement setting ledger' root')
  | _ => False

theorem Setting.Replaces.breaksOff {setting : Setting} {less more : Nat} {tail tail' : Text}
    {reason : Fault} (replaces : setting.Replaces less more tail tail' reason) :
    reason.breaksOff = true := by
  cases reason <;> first | rfl | exact replaces.elim

/-- If the first breaks off for the reason, what is read in the second way is read in the third. -/
def Continues {α β : Type} {whole whole' : Text} (setting : Setting) (less more : Nat)
    (reason : Fault) (first : Except Failure α) (second : Except Failure (Read whole (β × Ledger)))
    (third : Except Failure (Read whole' (β × Ledger))) : Prop :=
  ∀ failure, first = .error failure → failure.fault = reason →
    Follows setting less more [] second third

section Continues

variable {α β γ : Type} {whole whole' whole'' inside inside' inside'' : Text} {setting : Setting}
  {less more : Nat} {reason : Fault} {tail tail' : Text}
  {second : Except Failure (Read whole' (β × Ledger))}
  {third : Except Failure (Read whole'' (β × Ledger))}

theorem Continues.ok {value : α} :
    Continues setting less more reason (.ok value) second third := nofun

theorem Continues.of_settled {first : Except Failure α} (settled : Settled Failure.fault first)
    (breaks : reason.breaksOff = true) :
    Continues setting less more reason first second third := by
  intro failure found same
  have other := settled.not_error found
  rw [same, breaks] at other
  cases other

/-- A part without references is there in full, whatever comes behind. -/
theorem Continues.taken {ledger ledger' ledger'' : Ledger} {first : Except Stop (Read inside γ)}
    {begun : Except Stop (Read (inside ++ tail) γ)}
    {begun' : Except Stop (Read (inside ++ tail') γ)} {next : Read inside γ → Except Failure α}
    {next' : Read (inside ++ tail) γ → Except Failure (Read whole' (β × Ledger))}
    {next'' : Read (inside ++ tail') γ → Except Failure (Read whole'' (β × Ledger))}
    (breaks : reason.breaksOff = true) (settled : Settled Stop.fault first)
    (goesOn : ∀ {read}, first = .ok read → begun = .ok (read.on tail))
    (goesOn' : ∀ {read}, first = .ok read → begun' = .ok (read.on tail'))
    (further : ∀ read, first = .ok read →
      Continues setting less more reason (next read) (next' (read.on tail)) (next'' (read.on tail'))) :
    Continues setting less more reason (withLedger ledger first >>= next)
      (withLedger ledger' begun >>= next') (withLedger ledger'' begun' >>= next'') := by
  cases found : first with
  | error stop =>
    have other := settled.not_error found
    rintro failure broken same
    cases broken
    rw [← same, other] at breaks
    cases breaks
  | ok read =>
    rw [goesOn found, goesOn' found]
    exact further read found

/-- Either a part with references breaks off, or it is there and what is behind it does. -/
theorem Continues.bind {first : Except Failure (Read inside (γ × Ledger))}
    {begun : Except Failure (Read inside' (γ × Ledger))}
    {begun' : Except Failure (Read inside'' (γ × Ledger))}
    {next : Read inside (γ × Ledger) → Except Failure α}
    {next' : Read inside' (γ × Ledger) → Except Failure (Read whole' (β × Ledger))}
    {next'' : Read inside'' (γ × Ledger) → Except Failure (Read whole'' (β × Ledger))}
    (allowed : Kept (·.expansions ≤ setting.options.maxExpansions) (·.value.2) first)
    (goesOn : Follows setting 0 0 tail first begun)
    (goesOn' : Follows setting 0 0 tail' first begun')
    (start : Continues setting less more reason first begun begun')
    (behind : Follows setting less more [] begun begun' →
      Follows setting less more [] (begun >>= next') (begun' >>= next''))
    (further : ∀ value ledger ledger' ledger'' rest suffix suffix' suffix'',
      setting.Abreast ledger ledger' ledger'' →
        Continues setting less more reason (next ⟨(value, ledger), rest, suffix⟩)
          (next' ⟨(value, ledger'), rest ++ tail, suffix'⟩)
          (next'' ⟨(value, ledger''), rest ++ tail', suffix''⟩)) :
    Continues setting less more reason (first >>= next) (begun >>= next') (begun' >>= next'') := by
  cases found : first with
  | error failure =>
    rintro broken same reason
    cases same
    exact behind (start failure found reason)
  | ok read =>
    obtain ⟨⟨value, ledger⟩, rest, suffix⟩ := read
    have few : ledger.expansions ≤ setting.options.maxExpansions := allowed.of_ok found
    obtain ⟨⟨⟨value', ledger'⟩, rest', suffix'⟩, begun, same', left', shifted⟩ := goesOn _ found few
    obtain ⟨⟨⟨value'', ledger''⟩, rest'', suffix''⟩, begun', same'', left'', shifted'⟩ :=
      goesOn' _ found few
    dsimp only at same' left' shifted same'' left'' shifted'
    subst same' left' same'' left''
    rw [begun, begun']
    exact further _ _ _ _ _ _ _ _ ⟨few, shifted, shifted'⟩

end Continues

section Tags

variable {setting : Setting} {less more : Nat} {reason : Fault} {tail tail' : Text}
  {ledger ledger' ledger'' : Ledger} (closed : Sealed tail) (closed' : Sealed tail')
  (names : ∀ entry ∈ setting.table, IsName entry.1)
  (replaces : setting.Replaces less more tail tail' reason)
include replaces

theorem attributeValue_continues (abreast : setting.Abreast ledger ledger' ledger'')
    (front : Text) :
    Continues setting less more reason (attributeValue setting ledger front)
      (attributeValue setting ledger' (front ++ tail))
      (attributeValue setting ledger'' (front ++ tail')) := by
  cases front with
  | nil =>
    rintro failure found rfl
    cases found
    exact replaces ledger' ledger'' abreast.apart
  | cons quote rest =>
    change Continues _ _ _ _ _ (attributeValue setting ledger' (quote :: (rest ++ tail)))
      (attributeValue setting ledger'' (quote :: (rest ++ tail')))
    rw [attributeValue, attributeValue, attributeValue]
    split
    · exact .of_settled (attributeText_settled _ _ _ _ _ _ _) replaces.breaksOff
    · exact fun _ _ _ => .error

include closed closed' names

theorem attributeList_continues (abreast : setting.Abreast ledger ledger' ledger'')
    (element : Text) {whole whole' whole'' : Text} (done : List Attribute) (spaced : Bool)
    {front source source' : Text} {within : front <:+ whole} {within' : source <:+ whole'}
    {within'' : source' <:+ whole''} (goesOn : source = front ++ tail)
    (goesOn' : source' = front ++ tail') :
    Continues setting less more reason
      (attributeList setting element whole ledger done spaced front within)
      (attributeList setting element whole' ledger' done spaced source within')
      (attributeList setting element whole'' ledger'' done spaced source' within'') := by
  have breaks := replaces.breaksOff
  subst goesOn goesOn'
  fun_induction attributeList setting element whole ledger done spaced front within
    generalizing ledger' ledger'' with
  | case1 => exact .ok
  | case2 => exact .ok
  | case3 => exact .of_settled rfl breaks
  | case4 => exact .of_settled rfl breaks
  | case5 =>
    rename_i ledger done spaced first others _ _ blank within open_ unclosed ih
    have opens {tail : Text} (closed : Sealed tail) :
        take? "/>".toList (first :: (others ++ tail)) = none ∧
          take? ['>'] (first :: (others ++ tail)) = none :=
      ⟨take?_on_none closed open_ (by decide), take?_on_none closed unclosed (by decide)⟩
    change Continues _ _ _ _ _
      (attributeList setting element whole' ledger' done spaced (first :: (others ++ tail)) _)
      (attributeList setting element whole'' ledger'' done spaced (first :: (others ++ tail'))
        _)
    rw [attributeList.eq_def _ _ whole', attributeList.eq_def _ _ whole'', (opens closed).1,
      (opens closed').1]
    dsimp only
    rw [(opens closed).2, (opens closed').2]
    dsimp only
    rw [if_neg blank, if_neg blank]
    refine .taken breaks (nameFrom_settled _ _) (nameFrom_on closed) (nameFrom_on closed')
      fun key _ => ?_
    rw [Read.on, Read.on]
    dsimp only
    rw [skipBlanks_on closed, skipBlanks_on closed', Read.on, Read.on]
    dsimp only
    refine .taken breaks (expect_settled _ _) expect_on expect_on fun sign _ => ?_
    rw [Read.on, Read.on]
    dsimp only
    rw [skipBlanks_on closed, skipBlanks_on closed', Read.on, Read.on]
    dsimp only
    refine .bind (attributeValue_kept (limit_keeps _ _) abreast.allowed _)
      (attributeValue_follows closed names abreast.second _)
      (attributeValue_follows closed' names abreast.third _)
      (attributeValue_continues replaces abreast _) ?_ ?_
    · refine fun start => start.bind ?_ ?_
      · rintro ⟨⟨value, expanded⟩, after, valued⟩
        dsimp only
        split
        · exact Nat.le_refl expanded.expansions
        · exact attributeList_kept (grows_keeps _ _ _) _ _ (Nat.le_refl _) _ _ _ _
      · intro value ledger ledger' after valued valued' shifted
        dsimp only
        split
        · exact .error
        · rw [skipBlanks_on .nil, Read.on]
          exact attributeList_follows .nil names shifted _ _ _ rfl
    · intro value ledger ledger' ledger'' after valued _ _ abreast
      dsimp only
      split
      · exact .of_settled rfl breaks
      · rw [skipBlanks_on closed, skipBlanks_on closed', Read.on, Read.on]
        exact ih _ _ key.suffix _ (skipBlanks _).suffix _ sign.suffix _ (skipBlanks _).suffix _ _ _
          valued _ _ (skipBlanks _).suffix abreast

theorem startTag_continues (abreast : setting.Abreast ledger ledger' ledger'')
    (depth : Nat) (front : Text) :
    Continues setting less more reason (startTag setting depth ledger front)
      (startTag setting depth ledger' (front ++ tail))
      (startTag setting depth ledger'' (front ++ tail')) := by
  refine .taken replaces.breaksOff (name_settled _) (name_on closed) (name_on closed')
    fun element _ => ?_
  rw [Read.on, Read.on]
  dsimp only
  split
  · exact .of_settled rfl replaces.breaksOff
  · rw [skipBlanks_on closed, skipBlanks_on closed', Read.on, Read.on]
    exact attributeList_continues closed closed' names replaces abreast _ _ _ rfl rfl

theorem content_continues {whole whole' whole'' : Text} (inner : OpenElement)
    (outer : List OpenElement) (pending : Text) (abreast : setting.Abreast ledger ledger' ledger'')
    {front source source' : Text} {within : front <:+ whole} {within' : source <:+ whole'}
    {within'' : source' <:+ whole''} (goesOn : source = front ++ tail)
    (goesOn' : source' = front ++ tail') :
    Continues setting less more reason
      (content setting whole inner outer pending ledger front within)
      (content setting whole' inner outer pending ledger' source within')
      (content setting whole'' inner outer pending ledger'' source' within'') := by
  have breaks := replaces.breaksOff
  subst goesOn goesOn'
  fun_induction content setting whole inner outer pending ledger front within
    generalizing ledger' ledger'' with
  | case1 =>
    rintro failure found rfl
    cases found
    exact replaces whole' whole'' _ _ _ ledger' ledger'' _ _ abreast.apart
  | case2 =>
    rename_i inner outer pending ledger c rest _ tag settled _ afterSlash slash taken within ih
    change Continues _ _ _ _ _
      (content setting whole' inner outer pending ledger' (c :: (rest ++ tail)) _)
      (content setting whole'' inner outer pending ledger'' (c :: (rest ++ tail')) _)
    rw [content, content, if_pos tag, if_pos tag, take?_on taken, take?_on taken, Read.on, Read.on]
    refine .taken breaks (endTag_settled _ _) (endTag_on closed) (endTag_on closed')
      fun ended _ => ?_
    cases outer with
    | nil => exact .ok
    | cons parent outer => exact ih _ ended.suffix parent outer abreast
  | case3 =>
    rename_i inner outer pending ledger c rest _ tag settled noSlash result found within ih
    change Continues _ _ _ _ _
      (content setting whole' inner outer pending ledger' (c :: (rest ++ tail)) _)
      (content setting whole'' inner outer pending ledger'' (c :: (rest ++ tail')) _)
    rw [content, content, if_pos tag, if_pos tag, take?_on_none closed noSlash (by decide),
      take?_on_none closed' noSlash (by decide)]
    cases result with
    | error stop => exact .of_settled ((contentLeaf?_settled found).withLedger _) breaks
    | ok leaf =>
      dsimp only
      rw [contentLeaf?_on closed found, contentLeaf?_on closed' found]
      exact ih _ _ leaf.suffix abreast
  | case4 =>
    rename_i inner outer pending ledger c rest _ tag settled noSlash noLeaf within ended opened
    change Continues _ _ _ _ _
      (content setting whole' inner outer pending ledger' (c :: (rest ++ tail)) _)
      (content setting whole'' inner outer pending ledger'' (c :: (rest ++ tail')) _)
    rw [content, content, if_pos tag, if_pos tag, take?_on_none closed noSlash (by decide),
      take?_on_none closed' noSlash (by decide)]
    dsimp only
    rw [contentLeaf?_on_none closed noLeaf, contentLeaf?_on_none closed' noLeaf]
    refine .bind (startTag_kept (limit_keeps _ _) _ abreast.allowed _)
      (startTag_follows closed names abreast.second _ _)
      (startTag_follows closed' names abreast.third _ _)
      (startTag_continues closed closed' names replaces abreast _ _) ?_ ?_
    · refine fun start => start.bind ?_ ?_
      · rintro ⟨⟨tag, expanded⟩, after, suffix⟩
        dsimp only
        split
        · exact content_kept (grows_keeps _ _ _) (grows_keeps _ _ _) _ _ _ _ (Nat.le_refl _) _ _
        · exact content_kept (grows_keeps _ _ _) (grows_keeps _ _ _) _ _ _ _ (Nat.le_refl _) _ _
      · intro tag _ _ after suffix _ shifted
        dsimp only
        split
        · exact content_follows .nil names _ _ _ shifted rfl
        · exact content_follows .nil names _ _ _ shifted rfl
    · intro tag _ _ _ after suffix _ _ abreast
      dsimp only
      split
      · exact ended tag _ after suffix abreast
      · exact opened tag _ after suffix abreast
  | case5 =>
    rename_i inner outer pending ledger c rest _ noTag ampersand within ih
    change Continues _ _ _ _ _
      (content setting whole' inner outer pending ledger' (c :: (rest ++ tail)) _)
      (content setting whole'' inner outer pending ledger'' (c :: (rest ++ tail')) _)
    rw [content, content, if_neg noTag, if_neg noTag, if_pos ampersand, if_pos ampersand]
    refine .bind (reference_kept (limit_keeps _ _) abreast.allowed _)
      (reference_follows names abreast.second _ _) (reference_follows names abreast.third _ _)
      (.of_settled (reference_settled _ _ _ _) breaks) ?_ ?_
    · refine fun start => start.bind ?_ ?_
      · exact fun _ =>
          content_kept (grows_keeps _ _ _) (grows_keeps _ _ _) _ _ _ _ (Nat.le_refl _) _ _
      · exact fun value _ _ after suffix _ shifted => content_follows .nil names _ _ _ shifted rfl
    · exact fun value _ _ _ after suffix _ _ abreast => ih value _ after suffix abreast
  | case6 => exact .of_settled rfl breaks
  | case7 =>
    rename_i inner outer pending ledger c rest _ noTag ordinary noEnd within ih
    change Continues _ _ _ _ _
      (content setting whole' inner outer pending ledger' (c :: (rest ++ tail)) _)
      (content setting whole'' inner outer pending ledger'' (c :: (rest ++ tail')) _)
    rw [Option.not_isSome_iff_eq_none] at noEnd
    have open_ {tail : Text} (closed : Sealed tail) :
        ¬(take? "]]>".toList (c :: (rest ++ tail))).isSome = true := by
      rw [Option.not_isSome_iff_eq_none]
      exact take?_on_none closed noEnd (by decide)
    rw [content, content, if_neg noTag, if_neg noTag, if_neg ordinary, if_neg ordinary,
      if_neg (open_ closed), if_neg (open_ closed')]
    exact .taken breaks (nextChar_settled _ _) (nextChar_on closed) (nextChar_on closed')
      fun next _ => ih _ _ next.suffix abreast

theorem rootElement_continues (abreast : setting.Abreast ledger ledger' ledger'') (front : Text) :
    Continues setting less more reason (rootElement setting ledger front)
      (rootElement setting ledger' (front ++ tail))
      (rootElement setting ledger'' (front ++ tail')) := by
  refine .bind (startTag_kept (limit_keeps _ _) _ abreast.allowed _)
    (startTag_follows closed names abreast.second _ _)
    (startTag_follows closed' names abreast.third _ _)
    (startTag_continues closed closed' names replaces abreast _ _) ?_ ?_
  · refine fun start => start.bind ?_ ?_
    · rintro ⟨⟨tag, expanded⟩, after, suffix⟩
      dsimp only
      split
      · exact Nat.le_refl expanded.expansions
      · exact content_kept (grows_keeps _ _ _) (grows_keeps _ _ _) _ _ _ _ (Nat.le_refl _) _ _
    · intro tag _ _ after suffix _ shifted
      dsimp only
      split
      · exact .ok shifted
      · exact content_follows .nil names _ _ _ shifted rfl
  · intro tag _ _ _ after suffix _ _ abreast
    dsimp only
    split
    · exact .ok
    · exact content_continues closed closed' names replaces _ _ _ abreast rfl rfl

end Tags

end XmlSelect.Markup
