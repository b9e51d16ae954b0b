import XmlSelect.Proofs.ContinuedText
import XmlSelect.Proofs.ReadingLimits
import XmlSelect.Proofs.ReferenceReading

/-! Reading after other expansions. Where a text goes on, or where more or fewer expansions came
before, tags and content are read to the same, as long as the limit allows the expansions there. -/
namespace XmlSelect.Markup

/-- The expansions of the two ledgers are apart by so many. -/
def Shifted (less more : Nat) (ledger ledger' : Ledger) : Prop :=
  ledger'.expansions + less = ledger.expansions + more

/-- What is read in the one way is read in the other if there is room for the expansions, with
`tail` behind what is left. -/
def Follows {α : Type} {whole whole' : Text} (setting : Setting) (less more : Nat) (tail : Text)
    (first : Except Failure (Read whole (α × Ledger)))
    (second : Except Failure (Read whole' (α × Ledger))) : Prop :=
  ∀ read, first = .ok read →
    read.value.2.expansions + more ≤ setting.options.maxExpansions + less →
      ∃ read', second = .ok read' ∧ read'.value.1 = read.value.1 ∧ read'.rest = read.rest ++ tail ∧
        Shifted less more read.value.2 read'.value.2

section Follows

variable {α β : Type} {whole whole' inside inside' : Text} {setting : Setting} {less more : Nat}
  {tail : Text}

theorem Follows.error {failure : Failure} {second : Except Failure (Read whole' (α × Ledger))} :
    Follows setting less more tail (.error failure : Except Failure (Read whole (α × Ledger)))
      second := nofun

theorem Follows.ok {value : α} {ledger ledger' : Ledger} {rest : Text} {suffix : rest <:+ whole}
    {suffix' : rest ++ tail <:+ whole'} (shifted : Shifted less more ledger ledger') :
    Follows setting less more tail (.ok ⟨(value, ledger), rest, suffix⟩)
      (.ok ⟨(value, ledger'), rest ++ tail, suffix'⟩) := by
  rintro read found -
  cases found
  exact ⟨_, rfl, rfl, rfl, shifted⟩

/-- What follows step by step follows as a whole: expansions are never taken back. -/
theorem Follows.bind {first : Except Failure (Read inside (α × Ledger))}
    {second : Except Failure (Read inside' (α × Ledger))}
    {next : Read inside (α × Ledger) → Except Failure (Read whole (β × Ledger))}
    {next' : Read inside' (α × Ledger) → Except Failure (Read whole' (β × Ledger))}
    (start : Follows setting less more tail first second)
    (grows : ∀ read, Kept (read.value.2.expansions ≤ ·.expansions) (·.value.2) (next read))
    (further : ∀ value ledger ledger' rest suffix suffix', Shifted less more ledger ledger' →
      Follows setting less more tail (next ⟨(value, ledger), rest, suffix⟩)
        (next' ⟨(value, ledger'), rest ++ tail, suffix'⟩)) :
    Follows setting less more tail (first >>= next) (second >>= next') := by
  intro last found room
  obtain ⟨⟨⟨value, ledger⟩, rest, suffix⟩, begun, found⟩ := bind_ok found
  have least := (grows _).of_ok found
  obtain ⟨⟨⟨value', ledger'⟩, rest', suffix'⟩, begun', same, left, shifted⟩ :=
    start _ begun (by omega)
  dsimp only at same left shifted
  subst same left
  obtain ⟨last', found', parts⟩ := further _ ledger ledger' rest suffix suffix' shifted _ found room
  exact ⟨last', bind_of_ok begun' found', parts⟩

/-- A part that has no references is taken as it was. -/
theorem Follows.taken {γ : Type} {ledger ledger' : Ledger} {first : Except Stop (Read inside γ)}
    {second : Except Stop (Read (inside ++ tail) γ)}
    {next : Read inside γ → Except Failure (Read whole (β × Ledger))}
    {next' : Read (inside ++ tail) γ → Except Failure (Read whole' (β × Ledger))}
    (goesOn : ∀ {read}, first = .ok read → second = .ok (read.on tail))
    (further : ∀ read, first = .ok read →
      Follows setting less more tail (next read) (next' (read.on tail))) :
    Follows setting less more tail (withLedger ledger first >>= next)
      (withLedger ledger' second >>= next') := by
  cases found : first with
  | error stop => exact .error
  | ok read =>
    rw [goesOn found]
    exact further read found

end Follows

section Tags

variable {setting : Setting} {less more : Nat} {ledger ledger' : Ledger} {tail : Text}

theorem reference_follows (names : ∀ entry ∈ setting.table, IsName entry.1)
    (shifted : Shifted less more ledger ledger') (place : Place) (source : Text) :
    Follows setting less more tail (reference setting place ledger source)
      (reference setting place ledger' (source ++ tail)) := by
  rintro ⟨⟨value, after⟩, rest, suffix⟩ found room
  obtain ⟨text, spent, written, split, stands, counts, -⟩ := stands_of_reference names found
  dsimp only at split stands counts room
  unfold Shifted at shifted ⊢
  have fits : spent ≤ setting.left ledger' := by unfold Setting.left; omega
  have split' : source ++ tail = text ++ ';' :: (rest ++ tail) := by rw [split]; simp
  obtain ⟨after', suffix', found', counts'⟩ :=
    reference_of_stands written stands fits (rest ++ tail) _ split'
  exact ⟨_, found', rfl, rfl, by dsimp only; omega⟩

variable (closed : Sealed tail) (names : ∀ entry ∈ setting.table, IsName entry.1)
include closed names

theorem attributeText_follows (shifted : Shifted less more ledger ledger') (quote : Char)
    {whole whole' : Text} (done : Text) {source source' : Text} {within : source <:+ whole}
    {within' : source' <:+ whole'} (goesOn : source' = source ++ tail) :
    Follows setting less more tail
      (attributeText setting quote whole ledger done source within)
      (attributeText setting quote whole' ledger' done source' within') := by
  subst goesOn
  fun_induction attributeText setting quote whole ledger done source within
    generalizing ledger' with
  | case1 => exact .error
  | case2 ledger done c rest _ closing =>
    change Follows _ _ _ _ _ (attributeText setting quote whole' ledger' done (c :: (rest ++ tail)) _)
    rw [attributeText, if_pos closing]
    exact .ok shifted
  | case3 => exact .error
  | case4 ledger done c rest _ open_ untagged ampersand _ ih =>
    change Follows _ _ _ _ _ (attributeText setting quote whole' ledger' done (c :: (rest ++ tail)) _)
    rw [attributeText, if_neg open_, if_neg untagged, if_pos ampersand]
    refine .bind (reference_follows names shifted _ _) ?_ ?_
    · exact fun _ => attributeText_kept (grows_keeps _ _ _) _ _ (Nat.le_refl _) _ _ _
    · exact fun value _ _ after suffix _ shifted => ih value _ after suffix shifted
  | case5 ledger done c rest _ open_ untagged ordinary _ ih =>
    change Follows _ _ _ _ _ (attributeText setting quote whole' ledger' done (c :: (rest ++ tail)) _)
    rw [attributeText, if_neg open_, if_neg untagged, if_neg ordinary]
    exact .taken (nextChar_on closed) fun next _ => ih _ _ next.suffix shifted

theorem attributeValue_follows (shifted : Shifted less more ledger ledger') (source : Text) :
    Follows setting less more tail (attributeValue setting ledger source)
      (attributeValue setting ledger' (source ++ tail)) := by
  cases source with
  | nil => exact .error
  | cons quote rest =>
    change Follows _ _ _ _ _ (attributeValue setting ledger' (quote :: (rest ++ tail)))
    rw [attributeValue, attributeValue]
    split
    · exact attributeText_follows closed names shifted quote [] rfl
    · exact .error

theorem attributeList_follows (shifted : Shifted less more ledger ledger') (element : Text)
    {whole whole' : Text} (done : List Attribute) (spaced : Bool) {source source' : Text}
    {within : source <:+ whole} {within' : source' <:+ whole'} (goesOn : source' = source ++ tail) :
    Follows setting less more tail
      (attributeList setting element whole ledger done spaced source within)
      (attributeList setting element whole' ledger' done spaced source' within') := by
  subst goesOn
  fun_induction attributeList setting element whole ledger done spaced source within
    generalizing ledger' with
  | case1 =>
    rename_i ended
    rw [attributeList.eq_def _ _ whole', take?_on ended]
    exact .ok shifted
  | case2 =>
    rename_i open_ _ _ _ ended
    rw [attributeList.eq_def _ _ whole', take?_on_none closed open_ (by decide), take?_on ended]
    exact .ok shifted
  | case3 => exact .error
  | case4 => exact .error
  | case5 =>
    rename_i ledger done spaced first others _ _ blank within open_ unclosed ih
    have open' : take? "/>".toList (first :: (others ++ tail)) = none :=
      take?_on_none closed open_ (by decide)
    have unclosed' : take? ['>'] (first :: (others ++ tail)) = none :=
      take?_on_none closed unclosed (by decide)
    change Follows _ _ _ _ _
      (attributeList setting element whole' ledger' done spaced (first :: (others ++ tail)) _)
    rw [attributeList.eq_def _ _ whole', open']
    dsimp only
    rw [unclosed']
    dsimp only
    rw [if_neg blank]
    refine .taken (nameFrom_on closed) fun key _ => ?_
    rw [Read.on]
    dsimp only
    rw [skipBlanks_on closed, Read.on]
    dsimp only
    refine .taken expect_on fun sign _ => ?_
    rw [Read.on]
    dsimp only
    rw [skipBlanks_on closed, Read.on]
    dsimp only
    refine .bind (attributeValue_follows closed names shifted _) ?_ ?_
    · rintro ⟨⟨value, expanded⟩, after, valued⟩
      dsimp only
      split
      · exact Nat.le_refl expanded.expansions
      · exact attributeList_kept (grows_keeps _ _ _) _ _ (Nat.le_refl _) _ _ _ _
    · intro value ledger ledger' after valued valued' shifted
      dsimp only
      split
      · exact .error
      · rw [skipBlanks_on closed, Read.on]
        exact ih _ _ key.suffix _ (skipBlanks _).suffix _ sign.suffix _ (skipBlanks _).suffix _ _ _
          valued _ _ (skipBlanks _).suffix shifted

theorem startTag_follows (shifted : Shifted less more ledger ledger') (depth : Nat)
    (source : Text) :
    Follows setting less more tail (startTag setting depth ledger source)
      (startTag setting depth ledger' (source ++ tail)) := by
  refine .taken (name_on closed) fun element _ => ?_
  rw [Read.on]
  dsimp only
  split
  · exact .error
  · rw [skipBlanks_on closed, Read.on]
    exact attributeList_follows closed names shifted _ _ _ rfl

end Tags

section Content

variable {setting : Setting} {less more : Nat} {tail : Text} (closed : Sealed tail)
  (names : ∀ entry ∈ setting.table, IsName entry.1)
include closed names

theorem content_follows {whole whole' : Text} (inner : OpenElement) (outer : List OpenElement)
    (pending : Text) {ledger ledger' : Ledger} (shifted : Shifted less more ledger ledger')
    {source source' : Text} {within : source <:+ whole} {within' : source' <:+ whole'}
    (goesOn : source' = source ++ tail) :
    Follows setting less more tail
      (content setting whole inner outer pending ledger source within)
      (content setting whole' inner outer pending ledger' source' within') := by
  subst goesOn
  fun_induction content setting whole inner outer pending ledger source within
    generalizing ledger' with
  | case1 => exact .error
  | case2 =>
    rename_i inner outer pending ledger c rest _ tag settled _ afterSlash slash taken within ih
    change Follows _ _ _ _ _
      (content setting whole' inner outer pending ledger' (c :: (rest ++ tail)) _)
    rw [content, if_pos tag, take?_on taken, Read.on]
    refine .taken (endTag_on closed) fun ended _ => ?_
    cases outer with
    | nil => exact .ok shifted
    | cons parent outer => exact ih _ ended.suffix parent outer shifted
  | case3 =>
    rename_i inner outer pending ledger c rest _ tag settled noSlash result found within ih
    change Follows _ _ _ _ _
      (content setting whole' inner outer pending ledger' (c :: (rest ++ tail)) _)
    rw [content, if_pos tag, take?_on_none closed noSlash (by decide)]
    cases result with
    | error stop => exact .error
    | ok leaf =>
      dsimp only
      rw [contentLeaf?_on closed found]
      exact ih _ _ leaf.suffix shifted
  | case4 =>
    rename_i inner outer pending ledger c rest _ tag settled noSlash noLeaf within ended opened
    change Follows _ _ _ _ _
      (content setting whole' inner outer pending ledger' (c :: (rest ++ tail)) _)
    rw [content, if_pos tag, take?_on_none closed noSlash (by decide)]
    dsimp only
    rw [contentLeaf?_on_none closed noLeaf]
    refine .bind (startTag_follows closed names shifted _ _) ?_ ?_
    · rintro ⟨⟨tag, expanded⟩, after, suffix⟩
      dsimp only
      split
      · exact content_kept (grows_keeps _ _ _) (grows_keeps _ _ _) _ _ _ _ (Nat.le_refl _) _ _
      · exact content_kept (grows_keeps _ _ _) (grows_keeps _ _ _) _ _ _ _ (Nat.le_refl _) _ _
    · intro tag _ _ after suffix _ shifted
      dsimp only
      split
      · exact ended tag _ after suffix shifted
      · exact opened tag _ after suffix shifted
  | case5 =>
    rename_i inner outer pending ledger c rest _ noTag ampersand within ih
    change Follows _ _ _ _ _
      (content setting whole' inner outer pending ledger' (c :: (rest ++ tail)) _)
    rw [content, if_neg noTag, if_pos ampersand]
    refine .bind (reference_follows names shifted _ _) ?_ ?_
    · exact fun _ => content_kept (grows_keeps _ _ _) (grows_keeps _ _ _) _ _ _ _ (Nat.le_refl _) _ _
    · exact fun value _ _ after suffix _ shifted => ih value _ after suffix shifted
  | case6 => exact .error
  | case7 =>
    rename_i inner outer pending ledger c rest _ noTag ordinary noEnd within ih
    change Follows _ _ _ _ _
      (content setting whole' inner outer pending ledger' (c :: (rest ++ tail)) _)
    have noEnd' : ¬(take? "]]>".toList (c :: (rest ++ tail))).isSome = true := by
      rw [Option.not_isSome_iff_eq_none] at noEnd ⊢
      exact take?_on_none closed noEnd (by decide)
    rw [content, if_neg noTag, if_neg ordinary, if_neg noEnd']
    exact .taken (nextChar_on closed) fun next _ => ih _ _ next.suffix shifted

end Content

end XmlSelect.Markup
