/-!
# Dictionaries

A `Dictionary` keeps one value per key, in the order of the keys.  Two dictionaries with the same
values under the same keys are equal, whatever the order in which the keys were added.
-/

namespace CommonTrace

/-- Values by key. -/
structure Dictionary (κ ν : Type) where
  entries : List (κ × ν)
deriving DecidableEq, Repr

namespace Dictionary

variable {κ ν μ : Type}

def empty : Dictionary κ ν :=
  ⟨[]⟩

/-- The keys, in increasing order. -/
def keys (d : Dictionary κ ν) : List κ :=
  d.entries.map Prod.fst

def values (d : Dictionary κ ν) : List ν :=
  d.entries.map Prod.snd

def size (d : Dictionary κ ν) : Nat :=
  d.entries.length

/-- The value of the only key, if there is exactly one. -/
def only? (d : Dictionary κ ν) : Option ν :=
  match d.entries with
  | [(_, value)] => some value
  | _ => none

variable [Ord κ]

def get? (d : Dictionary κ ν) (key : κ) : Option ν :=
  (d.entries.find? fun entry => compare key entry.1 = .eq).map Prod.snd

def contains (d : Dictionary κ ν) (key : κ) : Bool :=
  (d.get? key).isSome

/-- Puts a value under a key into entries that are in increasing order. -/
def insertEntry (key : κ) (value : ν) : List (κ × ν) → List (κ × ν)
  | [] => [(key, value)]
  | (other, old) :: rest =>
    match compare key other with
    | .lt => (key, value) :: (other, old) :: rest
    | .eq => (key, value) :: rest
    | .gt => (other, old) :: insertEntry key value rest

/-- The dictionary with a value put under a key, in place of any value that is there. -/
def insert (d : Dictionary κ ν) (key : κ) (value : ν) : Dictionary κ ν :=
  ⟨insertEntry key value d.entries⟩

end Dictionary

end CommonTrace
