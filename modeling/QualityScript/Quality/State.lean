import QualityScript.Quality.Holding
import QualityScript.Table
import QualityScript.Ron.Reader

/-!
# States of qualities

A state is what is held of one quality together with where it came from. The states of the player
and those of the world are two tables. A table is keyed by quality id; it is read from saved games
too, so a key and the id inside the state are kept apart. In a saved game the kind of a holding is
the name of its variant; a kind with levels has a level, and a text has a value.
-/

namespace QualityScript.Quality

open Ron

structure State where
  id : String
  holding : Holding
  /-- Where the amounts came from, in order. -/
  sources : List String
  /-- How much was spent towards giving the quality up. -/
  spent : Int64
  deriving DecidableEq, Repr

/-- A state without a past. -/
def State.new (id : String) (holding : Holding) : State := ⟨id, holding, [], 0⟩

/-- A table of states, each key once. -/
structure States where
  entries : List (String × State)
  keys : (entries.map Prod.fst).Nodup
  deriving DecidableEq, Repr

namespace States

theorem keys_nil : (([] : List (String × State)).map Prod.fst).Nodup := List.nodup_nil

def empty : States := ⟨[], keys_nil⟩

instance : Inhabited States := ⟨empty⟩

def get? (states : States) (id : String) : Option State :=
  (withKey? Prod.fst id states.entries).map Prod.snd

def put (states : States) (key : String) (state : State) : States :=
  ⟨upsert Prod.fst (key, state) states.entries, nodup_map_key_upsert states.keys (key, state)⟩

/-- Puts a state under its own id. -/
def insert (states : States) (state : State) : States := states.put state.id state

def erase (states : States) (id : String) : States :=
  ⟨withoutKey Prod.fst id states.entries,
    (List.Sublist.map Prod.fst List.filter_sublist).nodup states.keys⟩

def size (states : States) : Nat := states.entries.length

def toList (states : States) : List State := states.entries.map Prod.snd

def ofList (list : List State) : States := list.foldl insert empty

/-- The level of a quality, zero if it is absent. -/
def level (states : States) (id : String) : Int64 :=
  ((states.get? id).map fun s => s.holding.level).getD 0

/-- The text of a quality, empty if it is absent. -/
def textValue (states : States) (id : String) : String :=
  ((states.get? id).map fun s => s.holding.textValue).getD ""

@[simp] theorem get?_empty (id : String) : empty.get? id = none := rfl

@[simp] theorem get?_put_self (states : States) (key : String) (state : State) :
    (states.put key state).get? key = some state := by
  simp only [get?, put]
  have := withKey?_upsert_self Prod.fst (key, state) states.entries
  simp_all

theorem get?_put_of_ne (states : States) {key id : String} (h : key ≠ id) (state : State) :
    (states.put key state).get? id = states.get? id := by
  simp only [get?, put]
  rw [withKey?_upsert_of_ne]
  exact h

end States

/-- What a file says of a holding of a kind. -/
def holdingOfKind : Kind → Reader Holding
  | .pyramidal =>
    .map (fun (level, points) => .pyramidal level points)
      (.fields
        [.required "level" .integer fun level parts => (level, parts.2),
          .required "change_points" .integer fun points parts => (parts.1, points)]
        (0, 0))
  | .counter => .map .counter (.fields [.required "level" .integer fun level _ => level] 0)
  | .item => .map .item (.fields [.required "level" .integer fun level _ => level] 0)
  | .equipable =>
    .map (fun (level, bonus) => .equipable level bonus)
      (.fields
        [.required "level" .integer fun level parts => (level, parts.2),
          .optional "bonus" (.option .text) fun bonus parts => (parts.1, bonus)]
        (0, none))
  | .text => .map .text (.fields [.required "value" .text fun value _ => value] "")

def holdingReader : Reader Holding :=
  .variant fun name => (Kind.ofLabel? name).map fun kind => .held (holdingOfKind kind)

def stateReader : Reader State :=
  .record "QualityState"
    [.required "quality_id" .text fun id state => { state with id },
      .required "value" holdingReader fun holding state => { state with holding },
      .optional "sources" (.list .text) fun sources state => { state with sources },
      .optional "spent_towards_prune" .integer fun spent state => { state with spent }]
    (.new "" (.empty .counter))

/-- The states of a file, under the keys that the file gives them. -/
def States.ofText? (text : String) : Option States :=
  (readFile? (.entries .text stateReader) text).map fun entries =>
    entries.foldl (fun states (key, state) => states.put key state) .empty

end QualityScript.Quality
