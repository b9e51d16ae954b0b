import XmlSelect.Proofs.RecencyInvariant
import XmlSelect.Query

/-! The cache against a plain list of expressions. Whatever is asked of a cache, it holds what the
list holds, in the same order, and its verdicts are those of the validator behind it. -/
namespace XmlSelect.Gate

/-- What can be asked of a cache. -/
inductive Request
  | check (text : Text)
  | clear
  | setCaching (caching : Bool)
  | setMaxSize (value : Int)
  | setMaxLength (value : Int)

/-- The cache after a request. -/
def Cache.serve (cache : Cache) : Request → Cache
  | .check text => (cache.check text).2
  | .clear => cache.clear
  | .setCaching caching => cache.setCaching caching
  | .setMaxSize value => (cache.setMaxSize value).2
  | .setMaxLength value => (cache.setMaxLength value).2

/-- The cache after some requests. -/
def Cache.serveAll (cache : Cache) (requests : List Request) : Cache :=
  requests.foldl Cache.serve cache

/-- The accepted expressions as a list, the latest used first, with the settings and the validator
that they passed. -/
structure UseList where
  settings : Settings
  validator : Validator
  keys : List Text := []

namespace UseList

/-- A listed expression goes to the front. Another one that passes is put there once the last ones
have made room for it. Without caching nothing changes. -/
def check (list : UseList) (text : Text) : UseList :=
  if !list.settings.caching then list
  else if text ∈ list.keys then { list with keys := text :: list.keys.erase text }
  else match list.validator.validate text list.settings.maxLength with
    | .error _ => list
    | .ok () =>
      if list.settings.maxSize = 0 then list
      else { list with keys := text :: list.keys.take (list.settings.maxSize - 1) }

/-- Only the front of the list stays within a new bound; a negative one is refused. -/
def setMaxSize (list : UseList) (value : Int) : UseList :=
  if value < 0 then list
  else { list with
    settings := { list.settings with maxSize := value.toNat }
    keys := list.keys.take value.toNat }

/-- Another greatest length empties the list; a negative one is refused. -/
def setMaxLength (list : UseList) (value : Int) : UseList :=
  if value < 0 ∨ list.settings.maxLength = value.toNat then list
  else { list with
    settings := { list.settings with maxLength := value.toNat }
    keys := [] }

/-- The list after a request. -/
def serve (list : UseList) : Request → UseList
  | .check text => list.check text
  | .clear => { list with keys := [] }
  | .setCaching caching => { list with settings := { list.settings with caching := caching } }
  | .setMaxSize value => list.setMaxSize value
  | .setMaxLength value => list.setMaxLength value

/-- The list after some requests. -/
def serveAll (list : UseList) (requests : List Request) : UseList := requests.foldl serve list

/-- No expression is listed twice, no more than the settings allow are listed, and each of them
passes under the present settings. -/
structure Sound (list : UseList) : Prop where
  nodup : list.keys.Nodup
  bounded : list.keys.length ≤ list.settings.maxSize
  accepted : ∀ key ∈ list.keys, list.validator.validate key list.settings.maxLength = .ok ()

variable {list : UseList}

theorem Sound.check (sound : list.Sound) (text : Text) : (list.check text).Sound := by
  unfold UseList.check
  split
  · exact sound
  · split
    · rename_i present
      have moved := List.perm_cons_erase present
      exact ⟨moved.nodup_iff.mp sound.nodup, by simpa [← moved.length_eq] using sound.bounded,
        fun key member => sound.accepted key (moved.mem_iff.mpr member)⟩
    · rename_i absent
      split
      · exact sound
      · rename_i passed
        split
        · exact sound
        · rename_i room
          have kept : ∀ key ∈ list.keys.take (list.settings.maxSize - 1), key ∈ list.keys :=
            fun key member => List.mem_of_mem_take member
          refine ⟨List.nodup_cons.mpr ⟨fun member => absent (kept text member),
            sound.nodup.sublist (List.take_sublist ..)⟩, ?_, ?_⟩
          · simp only [List.length_cons, List.length_take]
            omega
          · intro key member
            rcases List.mem_cons.mp member with rfl | member
            · exact passed
            · exact sound.accepted key (kept key member)

theorem Sound.setMaxSize (sound : list.Sound) (value : Int) : (list.setMaxSize value).Sound := by
  unfold UseList.setMaxSize
  split
  · exact sound
  · exact ⟨sound.nodup.sublist (List.take_sublist ..), List.length_take_le ..,
      fun key member => sound.accepted key (List.mem_of_mem_take member)⟩

theorem Sound.setMaxLength (sound : list.Sound) (value : Int) :
    (list.setMaxLength value).Sound := by
  unfold UseList.setMaxLength
  split
  · exact sound
  · exact ⟨List.nodup_nil, Nat.zero_le _, nofun⟩

theorem Sound.serve (sound : list.Sound) (request : Request) : (list.serve request).Sound := by
  cases request with
  | check text => exact sound.check text
  | clear => exact ⟨List.nodup_nil, Nat.zero_le _, nofun⟩
  | setCaching caching => exact ⟨sound.nodup, sound.bounded, sound.accepted⟩
  | setMaxSize value => exact sound.setMaxSize value
  | setMaxLength value => exact sound.setMaxLength value

theorem Sound.serveAll (sound : list.Sound) (requests : List Request) :
    (list.serveAll requests).Sound := by
  induction requests generalizing list with
  | nil => exact sound
  | cons request rest ih => exact ih (sound.serve request)

@[simp] theorem validator_serve (list : UseList) (request : Request) :
    (list.serve request).validator = list.validator := by
  cases request with
  | check text =>
    simp only [UseList.serve, UseList.check]
    split
    · rfl
    · split
      · rfl
      · split
        · rfl
        · split <;> rfl
  | clear => rfl
  | setCaching caching => rfl
  | setMaxSize value =>
    simp only [UseList.serve, UseList.setMaxSize]
    split <;> rfl
  | setMaxLength value =>
    simp only [UseList.serve, UseList.setMaxLength]
    split <;> rfl

theorem settings_check (list : UseList) (text : Text) :
    (list.check text).settings = list.settings := by
  unfold UseList.check
  split
  · rfl
  · split
    · rfl
    · split
      · rfl
      · split <;> rfl

theorem validator_serveAll (list : UseList) (requests : List Request) :
    (list.serveAll requests).validator = list.validator := by
  induction requests generalizing list with
  | nil => rfl
  | cons request rest ih => exact (ih (list.serve request)).trans (validator_serve list request)

end UseList

/-- A cache with the settings and the validator of a list, whose keys are those of the list. -/
structure Cache.Refines (cache : Cache) (list : UseList) : Prop where
  settings : cache.settings = list.settings
  validator : cache.validator = list.validator
  keys : ∃ entries, cache.accepted.Represents entries ∧ entries.map Prod.snd = list.keys

namespace Cache.Refines

variable {cache : Cache} {list : UseList}

theorem entries_eq (refines : cache.Refines list) : cache.entries = list.keys := by
  obtain ⟨entries, represents, keys⟩ := refines.keys
  rw [Cache.entries, represents.toList_eq, keys]

theorem size_eq (refines : cache.Refines list) : cache.size = list.keys.length := by
  obtain ⟨entries, represents, keys⟩ := refines.keys
  rw [size, represents.size_eq, ← keys, List.length_map]

theorem contains_iff (refines : cache.Refines list) (text : Text) :
    cache.contains text = true ↔ text ∈ list.keys := by
  obtain ⟨entries, represents, keys⟩ := refines.keys
  rw [contains, represents.contains_iff, keys]

/-- A listed expression passes at once and becomes the latest used. -/
theorem check_listed (refines : cache.Refines list) (caching : list.settings.caching = true)
    {text : Text} (listed : text ∈ list.keys) :
    (cache.check text).1 = .ok () ∧ (cache.check text).2.Refines (list.check text) := by
  obtain ⟨entries, represents, keys⟩ := refines.keys
  rw [← keys] at listed
  obtain ⟨⟨id, key⟩, member, rfl⟩ := List.mem_map.mp listed
  obtain ⟨front, back, rfl⟩ := List.append_of_mem member
  obtain ⟨touched, found, moved⟩ := represents.touch_present
  have served : cache.check key = (.ok (), { cache with accepted := touched }) := by
    simp [Cache.check, refines.settings, caching, found]
  have apart : key ∉ front.map Prod.snd := by
    have nodup := represents.keys_nodup
    rw [List.map_append, List.map_cons, List.nodup_middle, List.nodup_cons] at nodup
    exact fun inside => nodup.1 (List.mem_append_left _ inside)
  have erased : list.keys.erase key = (front ++ back).map Prod.snd := by
    rw [← keys, List.map_append, List.map_cons, List.erase_append_right _ apart,
      List.erase_cons_head, List.map_append]
  have checked : list.check key = { list with keys := key :: list.keys.erase key } := by
    rw [UseList.check, caching, if_neg (by simp), if_pos (keys ▸ listed)]
  rw [served, checked, erased]
  exact ⟨rfl, refines.settings, refines.validator, _, moved, rfl⟩

/-- What is stored in front of the expressions for which there is room. -/
theorem store (refines : cache.Refines list) {text : Text} (unlisted : text ∉ list.keys)
    (room : list.settings.maxSize ≠ 0) :
    (cache.store text).Refines
      { list with keys := text :: list.keys.take (list.settings.maxSize - 1) } := by
  obtain ⟨entries, represents, keys⟩ := refines.keys
  have shrunk := represents.shrinkTo (list.settings.maxSize - 1)
  have absent : text ∉ (entries.take (list.settings.maxSize - 1)).map Prod.snd := by
    rw [List.map_take, keys]
    exact fun member => unlisted (List.mem_of_mem_take member)
  obtain ⟨id, pushed⟩ := shrunk.push absent
  rw [Cache.store, refines.settings, if_neg room]
  refine ⟨rfl, refines.validator, _, pushed, ?_⟩
  rw [List.map_cons, List.map_take, keys]

/-- An expression that is not listed, and any one without caching, is left to the validator. -/
theorem check_unlisted (refines : cache.Refines list) {text : Text}
    (unlisted : list.settings.caching = true → text ∉ list.keys) :
    (cache.check text).1 = list.validator.validate text list.settings.maxLength ∧
      (cache.check text).2.Refines (list.check text) := by
  have missed : (if cache.settings.caching then cache.accepted.touch? text else none) = none := by
    obtain ⟨entries, represents, keys⟩ := refines.keys
    split
    · rename_i caching
      exact represents.touch_absent (keys ▸ unlisted (refines.settings ▸ caching))
    · rfl
  cases verdict : list.validator.validate text list.settings.maxLength with
  | error rejection =>
    have served : cache.check text = (.error rejection, cache) := by
      rw [Cache.check, missed, refines.settings, refines.validator, verdict]
    have same : list.check text = list := by
      unfold UseList.check
      split
      · rfl
      · rename_i caching
        rw [if_neg (unlisted (by simpa using caching)), verdict]
    rw [served, same]
    exact ⟨rfl, refines⟩
  | ok _ =>
    have served : cache.check text =
        (.ok (), if list.settings.caching then cache.store text else cache) := by
      rw [Cache.check, missed, refines.settings, refines.validator, verdict]
    rw [served]
    refine ⟨rfl, ?_⟩
    cases caching : list.settings.caching with
    | false =>
      rw [UseList.check, caching]
      exact refines
    | true =>
      rw [UseList.check, caching, if_pos rfl, if_neg (by simp), if_neg (unlisted caching), verdict]
      by_cases room : list.settings.maxSize = 0
      · rw [Cache.store, refines.settings, if_pos room, if_pos room]
        exact refines
      · rw [if_neg room]
        exact refines.store (unlisted caching) room

theorem check (refines : cache.Refines list) (text : Text) :
    (cache.check text).2.Refines (list.check text) := by
  by_cases listed : list.settings.caching = true ∧ text ∈ list.keys
  · exact (refines.check_listed listed.1 listed.2).2
  · exact (refines.check_unlisted fun caching member => listed ⟨caching, member⟩).2

/-- The verdict is the validator's, as long as the list only holds what passes. -/
theorem check_verdict (refines : cache.Refines list) (sound : list.Sound) (text : Text) :
    (cache.check text).1 = list.validator.validate text list.settings.maxLength := by
  by_cases listed : list.settings.caching = true ∧ text ∈ list.keys
  · rw [(refines.check_listed listed.1 listed.2).1, sound.accepted text listed.2]
  · exact (refines.check_unlisted fun caching member => listed ⟨caching, member⟩).1

theorem setMaxSize (refines : cache.Refines list) (value : Int) :
    (cache.setMaxSize value).2.Refines (list.setMaxSize value) := by
  obtain ⟨entries, represents, keys⟩ := refines.keys
  by_cases negative : value < 0
  · simp only [Cache.setMaxSize, UseList.setMaxSize, checkLimit, if_pos negative]
    exact refines
  · simp only [Cache.setMaxSize, UseList.setMaxSize, checkLimit, if_neg negative]
    refine ⟨by rw [refines.settings], refines.validator, _, represents.shrinkTo _, ?_⟩
    rw [List.map_take, keys]

theorem setMaxLength (refines : cache.Refines list) (value : Int) :
    (cache.setMaxLength value).2.Refines (list.setMaxLength value) := by
  by_cases negative : value < 0
  · simp only [Cache.setMaxLength, UseList.setMaxLength, checkLimit, negative, if_true, true_or]
    exact refines
  · by_cases same : list.settings.maxLength = value.toNat
    · simp only [Cache.setMaxLength, UseList.setMaxLength, checkLimit, if_neg negative,
        refines.settings, same, if_true, or_true]
      exact refines
    · simp only [Cache.setMaxLength, UseList.setMaxLength, checkLimit, refines.settings, same,
        negative, if_false, or_self]
      exact ⟨rfl, refines.validator, [], .empty, rfl⟩

theorem serve (refines : cache.Refines list) (request : Request) :
    (cache.serve request).Refines (list.serve request) := by
  cases request with
  | check text => exact refines.check text
  | clear => exact ⟨refines.settings, refines.validator, [], .empty, rfl⟩
  | setCaching caching =>
    refine ⟨?_, refines.validator, refines.keys⟩
    rw [Cache.serve, Cache.setCaching, UseList.serve, refines.settings]
  | setMaxSize value => exact refines.setMaxSize value
  | setMaxLength value => exact refines.setMaxLength value

theorem serveAll (refines : cache.Refines list) (requests : List Request) :
    (cache.serveAll requests).Refines (list.serveAll requests) := by
  induction requests generalizing cache list with
  | nil => exact refines
  | cons request rest ih => exact ih (refines.serve request)

end Cache.Refines

/-- The answer of a query depends on the cache by the verdict on its expression alone. -/
theorem run_fst (cache : Cache) (document : Document) (node : Nat) (kind : QueryKind)
    (selector : Text) :
    (Query.run cache document node kind selector).1 =
      (Query.toXPath kind selector).bind fun expression =>
        ((cache.check expression).1.mapError QueryError.rejected).bind fun _ =>
          Query.evaluateNodes document node expression := by
  unfold Query.run
  cases Query.toXPath kind selector with
  | error error => rfl
  | ok expression =>
    rcases checked : cache.check expression with ⟨_ | _, after⟩ <;>
      simp only [checked, Except.bind] <;> rfl

theorem toXPath_ne_evaluation (kind : QueryKind) (selector : Text) (error : XPath.Error) :
    Query.toXPath kind selector ≠ .error (.evaluation error) := by
  cases kind with
  | xpath => exact nofun
  | css =>
    rw [Query.toXPath]
    cases Selector.compile selector <;> exact nofun

/-- Only a verdict in its favour lets a query come to an evaluation. -/
theorem accepted_of_evaluated {cache : Cache} {document : Document} {node : Nat}
    {kind : QueryKind} {selector : Text}
    (evaluated : (∃ nodes, (Query.run cache document node kind selector).1 = .ok nodes) ∨
      ∃ error, (Query.run cache document node kind selector).1 = .error (.evaluation error)) :
    ∃ expression, Query.toXPath kind selector = .ok expression ∧
      (cache.check expression).1 = .ok () := by
  rw [run_fst] at evaluated
  cases translated : Query.toXPath kind selector with
  | error error =>
    rw [translated] at evaluated
    rcases evaluated with ⟨nodes, found⟩ | ⟨reason, found⟩
    · cases found
    · cases found
      exact absurd translated (toXPath_ne_evaluation kind selector reason)
  | ok expression =>
    refine ⟨expression, rfl, ?_⟩
    cases verdict : (cache.check expression).1 with
    | error rejection =>
      rw [translated, Except.bind, verdict] at evaluated
      rcases evaluated with ⟨nodes, found⟩ | ⟨reason, found⟩ <;> cases found
    | ok _ => rfl

/-- A cache and a list that have been asked the same since they were empty. -/
theorem refines_serveAll (settings : Settings) (validator : Validator) (requests : List Request) :
    (Cache.serveAll { settings, validator } requests).Refines
      (UseList.serveAll { settings, validator } requests) :=
  Cache.Refines.serveAll ⟨rfl, rfl, [], .empty, rfl⟩ requests

theorem sound_serveAll (settings : Settings) (validator : Validator) (requests : List Request) :
    (UseList.serveAll { settings, validator } requests).Sound :=
  UseList.Sound.serveAll ⟨List.nodup_nil, Nat.zero_le _,
    fun _ member => absurd member List.not_mem_nil⟩ requests

/-- After any requests a cache holds what the list holds, in the order of use, within its bound. -/
theorem entries_serveAll (settings : Settings) (validator : Validator) (requests : List Request) :
    let cache := Cache.serveAll { settings, validator } requests
    let list := UseList.serveAll { settings, validator } requests
    cache.entries = list.keys ∧ list.keys.Nodup ∧ cache.settings = list.settings ∧
      cache.size = list.keys.length ∧ cache.size ≤ cache.settings.maxSize ∧
      ∀ text, cache.contains text = true ↔ text ∈ list.keys := by
  have refines := refines_serveAll settings validator requests
  have sound := sound_serveAll settings validator requests
  refine ⟨refines.entries_eq, sound.nodup, refines.settings, refines.size_eq, ?_,
    refines.contains_iff⟩
  rw [refines.size_eq, refines.settings]
  exact sound.bounded

/-- Whatever was asked before, a verdict is the validator's under the greatest length in force, and
a query only comes to an evaluation if its expression passes there. -/
theorem verdict_serveAll (settings : Settings) (validator : Validator) (requests : List Request) :
    let cache := Cache.serveAll { settings, validator } requests
    (∀ text, (cache.check text).1 = validator.validate text cache.settings.maxLength) ∧
      ∀ document node kind selector,
        (∃ nodes, (Query.run cache document node kind selector).1 = .ok nodes) ∨
            (∃ error, (Query.run cache document node kind selector).1 =
              .error (.evaluation error)) →
          ∃ expression, Query.toXPath kind selector = .ok expression ∧
            validator.validate expression cache.settings.maxLength = .ok () := by
  intro cache
  have verdict (text : Text) :
      (cache.check text).1 = validator.validate text cache.settings.maxLength := by
    have refines := refines_serveAll settings validator requests
    rw [refines.check_verdict (sound_serveAll settings validator requests),
      UseList.validator_serveAll, ← refines.settings]
  refine ⟨verdict, fun document node kind selector evaluated => ?_⟩
  obtain ⟨expression, translated, accepted⟩ := accepted_of_evaluated evaluated
  exact ⟨expression, translated, (verdict expression).symm.trans accepted⟩

/-- A query for the document node, after the bound and the greatest length were lowered. -/
theorem verdict_serveAll_lowered :
    let requests : List Request :=
      [.check "//a".toList, .check "/".toList, .setMaxSize 1, .setCaching false, .setMaxLength 1]
    let cache := Cache.serveAll {} requests
    (Query.run cache (.ofForest none .nil) 1 .xpath "/".toList).1 = .ok [1] ∧
      ∃ expression, Query.toXPath .xpath "/".toList = .ok expression ∧
        Validator.validate {} expression cache.settings.maxLength = .ok () := by
  intro requests cache
  have settings : cache.settings = ⟨false, 1, 1⟩ := by
    rw [(refines_serveAll {} {} requests).settings]
    decide +kernel
  have passed : (cache.check "/".toList).1 = .ok () := by
    rw [(verdict_serveAll {} {} requests).1, settings]
    decide +kernel
  have found : (Query.run cache (.ofForest none .nil) 1 .xpath "/".toList).1 = .ok [1] := by
    rw [run_fst, Query.toXPath, Except.bind, passed]
    decide +kernel
  exact ⟨found, (verdict_serveAll {} {} requests).2 _ _ _ _ (.inl ⟨_, found⟩)⟩

end XmlSelect.Gate
