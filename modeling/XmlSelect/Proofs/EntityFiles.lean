import XmlSelect.CommandLine.Execute

/-! The files that hold external entities. The path of one is seen from the folder of the document,
but nothing keeps it there: it stays inside exactly if it enters all folders again that it leaves.
-/
namespace XmlSelect.CommandLine

/-- Where a name leads: nowhere if it is empty or a single dot, up if it is two dots, and else
down. -/
def enter (place : List Text) (name : Text) : List Text :=
  if name.isEmpty || name == ['.'] then place
  else if name == ['.', '.'] then place.dropLast
  else place ++ [name]

/-- The place that a path names, by the names of the folders from the outermost one on, if the
folder at hand is at the place `here`. -/
def placeOf (here : List Text) (path : Text) : List Text :=
  (path.splitOn '/').foldl enter (if path.head? = some '/' then [] else here)

/-- Where names lead, wherever they start: some folders up, and then down again. -/
structure Route where
  up : Nat := 0
  down : List Text := []
deriving DecidableEq

namespace Route

def enter (route : Route) (name : Text) : Route :=
  if name.isEmpty || name == ['.'] then route
  else if name == ['.', '.'] then
    if route.down.isEmpty then { route with up := route.up + 1 }
    else { route with down := route.down.dropLast }
  else { route with down := route.down ++ [name] }

def ofPath (path : Text) : Route := (path.splitOn '/').foldl enter {}

/-- The folders of a place that are left on the way up; above the outermost one there is none. -/
def left (route : Route) (place : List Text) : List Text := place.drop (place.length - route.up)

/-- The place that is reached from another one. -/
def reach (route : Route) (place : List Text) : List Text :=
  place.take (place.length - route.up) ++ route.down

theorem reach_enter (route : Route) (place : List Text) (name : Text) :
    (route.enter name).reach place = CommandLine.enter (route.reach place) name := by
  unfold enter CommandLine.enter
  split
  · rfl
  · split
    · split
      · rename_i top
        have above : place.take (place.length - (route.up + 1)) =
            (place.take (place.length - route.up)).dropLast := by
          rw [List.dropLast_eq_take, List.length_take, List.take_take]
          congr 1
          omega
        rw [reach, reach, List.isEmpty_iff.mp top, List.append_nil, List.append_nil]
        exact above
      · rename_i inner
        exact (List.dropLast_append_of_ne_nil (by simpa using inner)).symm
    · exact (List.append_assoc ..).symm

theorem foldl_enter (names : List Text) (route : Route) (place : List Text) :
    names.foldl CommandLine.enter (route.reach place) = (names.foldl enter route).reach place := by
  induction names generalizing route with
  | nil => rfl
  | cons name names ih => rw [List.foldl_cons, List.foldl_cons, ← reach_enter, ih]

theorem reach_ofPath (path : Text) (place : List Text) :
    (ofPath path).reach place = (path.splitOn '/').foldl CommandLine.enter place := by
  have start : ({} : Route).reach place = place := by simp [reach]
  rw [ofPath, ← foldl_enter, start]

end Route

section Folders

variable {here : List Text} {folder path : Text}

theorem folderPart_cases (path : Text) :
    folderPart path = [] ∨ ∃ front, folderPart path = front ++ ['/'] := by
  unfold folderPart
  cases kept : path.reverse.dropWhile (· != '/') with
  | nil => exact .inl rfl
  | cons c rest =>
    have slash := List.head?_dropWhile_not (· != '/') path.reverse
    rw [kept] at slash
    obtain rfl : c = '/' := by simpa using slash
    exact .inr ⟨rest.reverse, List.reverse_cons⟩

/-- A path that is seen from a folder leads on from there. -/
theorem placeOf_append (isFolder : folder = [] ∨ ∃ front, folder = front ++ ['/'])
    (relative : path.head? ≠ some '/') :
    placeOf here (folder ++ path) = (path.splitOn '/').foldl enter (placeOf here folder) := by
  have stays (place : List Text) : enter place [] = place := rfl
  obtain rfl | ⟨front, rfl⟩ := isFolder
  · rw [List.nil_append, placeOf, if_neg relative]
    rfl
  · have whole : (front ++ ['/'] ++ path).splitOn '/' = front.splitOn '/' ++ path.splitOn '/' := by
      rw [List.append_assoc]
      exact List.splitOnP_append_cons front path rfl
    have part : (front ++ ['/']).splitOn '/' = front.splitOn '/' ++ [[]] :=
      List.splitOnP_append_cons front [] rfl
    have start : (front ++ ['/'] ++ path).head? = (front ++ ['/']).head? := by
      cases front <;> rfl
    rw [placeOf, placeOf, whole, part, start, List.foldl_append, List.foldl_append,
      List.foldl_cons, List.foldl_nil, stays]

theorem placeOf_pathFrom (isFolder : folder = [] ∨ ∃ front, folder = front ++ ['/']) :
    placeOf here (pathFrom folder path) =
      if path.head? = some '/' then (Route.ofPath path).down
      else (Route.ofPath path).reach (placeOf here folder) := by
  unfold pathFrom
  split
  · rename_i outermost
    rw [placeOf, if_pos outermost, ← Route.reach_ofPath, Route.reach, List.take_nil,
      List.nil_append]
  · rename_i relative
    rw [placeOf_append isFolder relative, Route.reach_ofPath]

end Folders

/-- A place is inside a folder, at any depth. -/
def Inside (folder place : List Text) : Prop := folder <+: place ∧ folder ≠ place

instance (folder place : List Text) : Decidable (Inside folder place) := instDecidableAnd

/-- The file with a path is in the folder that holds the document, or in one inside that folder. -/
def Beside (here : List Text) (name path : Text) : Prop :=
  Inside (placeOf here (folderPart name)) (placeOf here path)

/-- What a system identifier says about the place of an entity; the scheme of files is left out. -/
def localPart (systemId : Text) : Text := (Text.dropPrefix? "file://".toList systemId).getD systemId

/-- All folders around the document that a path leaves are entered again, and then another name. A
path that starts in the outermost folder leaves them all. -/
def Returns (folder : List Text) (path : Text) : Prop :=
  let route := Route.ofPath path
  Inside (if path.head? = some '/' then folder else route.left folder) route.down

theorem inside_append_iff {front folder place : List Text} :
    Inside (front ++ folder) (front ++ place) ↔ Inside folder place := by
  rw [Inside, Inside, List.prefix_append_right_inj, Ne, Ne, List.append_cancel_left_eq]

/-- Seen from the folder of a document, exactly the paths that return lead to files beside it. -/
theorem beside_pathFrom_iff (here : List Text) (name path : Text) :
    Beside here name (pathFrom (folderPart name) path) ↔
      Returns (placeOf here (folderPart name)) path := by
  rw [Beside, Returns, placeOf_pathFrom (folderPart_cases name)]
  generalize placeOf here (folderPart name) = folder
  split
  · rfl
  · have moved := @inside_append_iff (folder.take (folder.length - (Route.ofPath path).up))
      (folder.drop (folder.length - (Route.ofPath path).up)) (Route.ofPath path).down
    rwa [List.take_append_drop] at moved

/-- Paths that stay in a folder, or come back to it, and paths that do not. -/
example :
    Returns [['h'], ['s']] "a/../f".toList ∧ Returns [['h'], ['s']] "../s/./f".toList ∧
      ¬Returns [['h'], ['s']] "../f".toList ∧ ¬Returns [['h'], ['s']] "/f".toList := by
  unfold Returns
  decide +kernel

namespace Command

variable {command : Command} {inputs inputs' : Inputs} {name : Text}
  {request : Markup.EntityRequest}

/-- What comes back for an external entity of the document with a name. -/
def resolve (command : Command) (inputs : Inputs) (name : Text) (request : Markup.EntityRequest) :
    Option Text :=
  (command.options inputs name).resolver.bind (· request)

theorem resolve_of_allowed (allowed : command.given.has .allowExternalEntities = true) :
    command.resolve inputs name request = inputs.entity? (folderPart name) request := by
  rw [resolve, options, if_pos allowed]
  rfl

theorem resolve_of_forbidden (forbidden : command.given.has .allowExternalEntities = false) :
    command.resolve inputs name request = none := by
  rw [resolve, options, forbidden]
  rfl

/-- An address of another kind is never looked up. -/
theorem resolve_of_address
    (address : Text.includes "://".toList (localPart request.systemId) = true) :
    command.resolve inputs name request = none := by
  cases allowed : command.given.has .allowExternalEntities with
  | false => exact resolve_of_forbidden allowed
  | true =>
    have none : entityPath? (folderPart name) request.systemId = none := if_pos address
    rw [resolve_of_allowed allowed, Inputs.entity?, none]
    rfl

/-- Any other system identifier stands for the text of one file. -/
theorem resolve_of_path (allowed : command.given.has .allowExternalEntities = true)
    (path : Text.includes "://".toList (localPart request.systemId) = false) :
    command.resolve inputs name request =
      (inputs.file (pathFrom (folderPart name) (localPart request.systemId))).toOption.bind
        Utf8.decode? := by
  have found : entityPath? (folderPart name) request.systemId =
      some (pathFrom (folderPart name) (localPart request.systemId)) :=
    if_neg fun address => Bool.false_ne_true (path.symm.trans address)
  rw [resolve_of_allowed allowed, Inputs.entity?, found]
  rfl

/-- What comes back for an external entity depends on no file but those beside the document exactly
if the path, where it is one, returns to the folder of the document; for an address of another kind
nothing comes back. -/
theorem resolve_confined_iff (command : Command) (here : List Text) (name : Text)
    (request : Markup.EntityRequest) :
    (Text.includes "://".toList (localPart request.systemId) = true →
      ∀ inputs, command.resolve inputs name request = none) ∧
    ((∀ inputs inputs' : Inputs,
        (∀ path, Beside here name path → inputs.file path = inputs'.file path) →
          command.resolve inputs name request = command.resolve inputs' name request) ↔
      (command.given.has .allowExternalEntities = true →
        Text.includes "://".toList (localPart request.systemId) = false →
          Returns (placeOf here (folderPart name)) (localPart request.systemId))) := by
  refine ⟨fun address inputs => resolve_of_address address, ?_⟩
  rw [← beside_pathFrom_iff]
  constructor
  · intro confined allowed isPath
    refine Classical.byContradiction fun outside => ?_
    -- Two sets of inputs that differ in the file outside alone.
    let empty : Inputs :=
      ⟨fun other => if other = pathFrom (folderPart name) (localPart request.systemId) then .ok []
        else .error .missing, []⟩
    let absent : Inputs := ⟨fun _ => .error .missing, []⟩
    have same (other : Text) (beside : Beside here name other) :
        empty.file other = absent.file other := by
      refine if_neg ?_
      rintro rfl
      exact outside beside
    have found : empty.file (pathFrom (folderPart name) (localPart request.systemId)) = .ok [] :=
      if_pos rfl
    have different := confined empty absent same
    rw [resolve_of_path allowed isPath, resolve_of_path allowed isPath, found] at different
    have decoded : Utf8.decode? [] = some [] := by rw [Utf8.decode?]
    cases decoded.symm.trans different
  · intro returns inputs inputs' same
    cases allowed : command.given.has .allowExternalEntities with
    | false => rw [resolve_of_forbidden allowed, resolve_of_forbidden allowed]
    | true =>
      cases isPath : Text.includes "://".toList (localPart request.systemId) with
      | true => rw [resolve_of_address isPath, resolve_of_address isPath]
      | false =>
        rw [resolve_of_path allowed isPath, resolve_of_path allowed isPath,
          same _ (returns allowed isPath)]

end Command

/-- Two dots lead out of the folder of the document, to a file that is read all the same. -/
theorem outer_file_read :
    let folder : Folder := { files := [([['s'], ['x']], []), ([['f']], [84])] }
    let command : Command := ⟨.xpath, "/r".toList,
      [.allowExternalEntities], [(.xpath, "/r".toList)], ["s/x".toList]⟩
    command.resolve ⟨folder.read, []⟩ "s/x".toList ⟨['e'], "../f".toList, none⟩ = some ['T'] ∧
      entityPath? (folderPart "s/x".toList) "../f".toList = some "s/../f".toList ∧
      ¬Beside [['h']] "s/x".toList "s/../f".toList := by
  intro folder command
  refine ⟨?_, by decide +kernel, by unfold Beside; decide +kernel⟩
  have path : pathFrom (folderPart "s/x".toList) (localPart "../f".toList) = "s/../f".toList := by
    decide +kernel
  rw [Command.resolve_of_path (by decide +kernel) (by decide +kernel), path]
  decide +kernel

end XmlSelect.CommandLine
