import TagCache.Session.Rebuild

/-!
# Verifying the cache

`Session.verifyIndex` checks that every contents cache belongs to the entry point of a function and
has the two expected fields. `Session.verifyContents` counts the references of one function's cache
again, at the addresses that the cache lists, and compares. What a check comes to is a value
(`Finding`), and each finding has its report (`Finding.lines`); only an accepted cache has an empty
one.
-/

namespace TagCache

/-- What the check of a contents cache comes to. -/
inductive Finding where
  /-- The address is in no function. -/
  | unresolved
  /-- The function has no cache. -/
  | uncached
  /-- The cache has fields beyond the expected ones. -/
  | unsupportedFields (function : Address) (fields : List String)
  /-- The cache lacks an expected field. -/
  | lackingFields (function : Address) (present : List String)
  /-- The cache lists addresses outside the function, which other functions may own. -/
  | strays (function : Address) (items : List (Address × Option Address))
  /-- The recount has other addresses than the cache. -/
  | addressKeys (function : Address) (additional missing : List Address)
  /-- The recount has other names than the cache. -/
  | nameKeys (function : Address) (additional missing : List String)
  /-- The counts that differ, each with the cached one and the recounted one. -/
  | recounted (function : Address) (addresses : List (Address × Nat × Nat))
    (names : List (String × Nat × Nat))
deriving DecidableEq, Repr

/-! ## Recounting -/

/-- The implicit tags that may be counted with the entry point in the globals index. -/
def implicitTags : List String := [typeInfoTag, nameTag]

namespace Recount

/-- The tags at the cached addresses that have any. -/
def tagged (db : Snapshot) (cached : Counts) : Table Address NameSet :=
  (cached.addresses.mapValues fun a _ => db.tagsAt a).filter fun _ names => !names.isEmpty

/-- The number of cached addresses that carry a tag. -/
def carriers (db : Snapshot) (cached : Counts) (name : String) : Nat :=
  (cached.addresses.keys.filter fun a => (db.tagsAt a).contains name).length

/-- Whether an implicit tag is left out at the entry point: the entry point is cached and carries
it, and more cached addresses carry it than the cache has references for. -/
def leavesOut (db : Snapshot) (f : Address) (cached : Counts) (name : String) : Bool :=
  implicitTags.contains name && cached.addresses.contains f && (db.tagsAt f).contains name
    && cached.names.getD name 0 < carriers db cached name

/-- The tags at the cached addresses, without the implicit ones left out at the entry point. -/
def corrected (db : Snapshot) (f : Address) (cached : Counts) : Table Address NameSet :=
  (tagged db cached).mapValues fun a names =>
    if a = f then names.filter fun name _ => !leavesOut db f cached name else names

/-- The recounted references. An address that lost all its tags counts zero. -/
def found (db : Snapshot) (f : Address) (cached : Counts) : Counts :=
  let sets := corrected db f cached
  let counts := Counts.ofSets sets
  { counts with addresses := (sets.mapValues fun _ _ => 0).overlay counts.addresses }

end Recount

/-- The keys of the second table that the first one lacks. -/
def Table.keysBeyond {κ ν ν' : Type} [Ord κ] (t : Table κ ν) (u : Table κ ν') : List κ :=
  u.keys.filter fun k => !t.contains k

/-- The cached counts that differ from the recounted ones, with both. -/
def Table.mismatches {κ : Type} [Ord κ] [Std.TransOrd κ] [Std.LawfulEqOrd κ]
    (cached found : Table κ Nat) : List (κ × Nat × Nat) :=
  cached.entries.filterMap fun b =>
    let n := found.getD b.1 0
    if n = b.2 then none else some (b.1, b.2, n)

/-- Compare cached counts with recounted ones: addresses, then names, then the counts. -/
def compareCounts (f : Address) (cached found : Counts) : Finding :=
  let additional := cached.addresses.keysBeyond found.addresses
  let missing := found.addresses.keysBeyond cached.addresses
  if !additional.isEmpty || !missing.isEmpty then .addressKeys f additional missing
  else
    let additional := cached.names.keysBeyond found.names
    let missing := found.names.keysBeyond cached.names
    if !additional.isEmpty || !missing.isEmpty then .nameKeys f additional missing
    else
      .recounted f (cached.addresses.mismatches found.addresses)
        (cached.names.mismatches found.names)

/-- What is wrong with the fields of a function's entry, if anything. -/
def checkFields (f : Address) (e : Entry) : Option Finding :=
  let unsupported := expectedFields.keysBeyond e.keys
  let missing := e.keys.keysBeyond expectedFields
  if !unsupported.isEmpty then some (.unsupportedFields f unsupported)
  else if !missing.isEmpty then some (.lackingFields f e.keys.toList)
  else none

/-- The cached addresses outside the function, with the functions that own them, if there are
any. -/
def checkStrays (db : Snapshot) (f : Address) (cached : Counts) : Option Finding :=
  let strays := cached.addresses.keys.filter fun a => !db.functionContains f a
  if strays.isEmpty then none
  else some (.strays f (strays.map fun a => (a, db.functionOf? a)))

/-! ## Reports -/

/-- The ending of a word for a count other than one. -/
def plural (n : Nat) (ending : String) : String := if n = 1 then "" else ending

/-- Items with a comma and a space between them. -/
def joined (items : List String) : String := ", ".intercalate items

/-- The sum of a difference of two sets of keys. -/
def differenceText (additional missing : Nat) : String :=
  if additional = 0 then "is missing " ++ Text.decimal missing
  else if missing = 0 then "has " ++ Text.decimal additional ++ " additional"
  else "contains " ++ Text.decimal additional ++ " additional and " ++ Text.decimal missing
    ++ " missing"

/-- The line about a count that differs. -/
def mismatchText (target : String) (cached found : Nat) : String :=
  "expected to find " ++ Text.decimal cached ++ " reference" ++ plural cached "s" ++ " to "
    ++ target ++ ", whereas " ++ Text.decimal found ++ (if found = 1 then " was" else " were")
    ++ " found within the function"

/-- The lines about one cached address outside the function, from a position on. -/
def strayLines (f : String) (total : Nat) : Nat → List (Address × Option Address) → List String
  | _, [] => []
  | position, (a, owner) :: rest =>
    ("item " ++ Session.progress position total ++ " at " ++ a.text ++ " should be owned by " ++ f
      ++ " but " ++ match owner with
        | some g => "is in " ++ g.text
        | none => "is not in a function")
    :: strayLines f total (position + 1) rest

/-- The report of a finding about the cache that was asked for at an address. -/
def Finding.lines (a : Address) : Finding → List String
  | .unresolved => tell a ["unable to read the cache for the requested address " ++ a.text]
  | .uncached => tell a ["the requested address (" ++ a.text ++ ") does not contain a cache"]
  | .unsupportedFields f fields =>
    tell a ["the cache at " ++ f.text ++ " contains unsupported keys (" ++ joined fields ++ ")"]
  | .lackingFields f present =>
    tell a ["the cache at " ++ f.text ++ " contains keys (" ++ joined present
      ++ ") that do not meet the requirements (" ++ joined expectedFields.toList ++ ")"]
  | .strays f items =>
    let n := items.length
    tell a (("the cache references " ++ Text.decimal n ++ " address" ++ plural n "es"
      ++ " that are not owned by function " ++ f.text) :: strayLines f.text n 1 items)
  | .addressKeys f additional missing =>
    tell f (("the address cache for " ++ f.text ++ " is desynchronized and "
        ++ differenceText additional.length missing.length ++ " addresses...")
      :: listed "...the additional addresses are: " (additional.map Address.text)
      ++ listed "...the addresses that are missing are: " (missing.map Address.text))
  | .nameKeys f additional missing =>
    tell f (("the name cache for " ++ f.text ++ " is desynchronized and "
        ++ differenceText additional.length missing.length ++ " keys...")
      :: listed "...the additional keys are: " (additional.map Text.quoted)
      ++ listed "...the keys that are missing are: " (missing.map Text.quoted))
  | .recounted f addresses names =>
    tell f (
      addresses.map (fun (b, cached, found) => mismatchText ("address " ++ b.text) cached found)
        ++ names.map fun (n, cached, found) => mismatchText ("tag " ++ Text.quoted n) cached found)
where
  /-- Lines that start with an address in brackets. -/
  tell (a : Address) (texts : List String) : List String :=
    texts.map fun t => "[" ++ a.text ++ "] " ++ t
  /-- A line of items, if there are any. -/
  listed (label : String) (items : List String) : List String :=
    if items.isEmpty then [] else [label ++ joined items]

/-- Whether the cache is accepted. -/
def Finding.accepts : Finding → Bool
  | .recounted _ [] [] => true
  | _ => false

namespace Session

/-- Write the report of a finding, and tell whether the cache is accepted. -/
def report (a : Address) (finding : Finding) : Session Bool := do
  (finding.lines a).forM writeLine
  return finding.accepts

/-- Check the contents cache of the function that owns an address against a recount. The cached
addresses are visited when the recount is reached. -/
def verifyContents (db : Snapshot) (a : Address) : Session Bool := do
  match db.functionOf? a with
  | none => report a .unresolved
  | some f =>
    match ← asks (·.readContents f) with
    | none => report a .uncached
    | some e =>
      match checkFields f e with
      | some finding => report a finding
      | none =>
        match e.counts with
        | .error reason => throw (.malformedEntry (.contents f) reason)
        | .ok cached =>
          match checkStrays db f cached with
          | some finding => report a finding
          | none =>
            cached.addresses.keys.forM visit
            report a (compareCounts f cached (Recount.found db f cached))

/-- Check the fields of a live contents cache. -/
def verifyFields (a : Address) (e : Entry) : Session Bool := do
  let unsupported := expectedFields.keysBeyond e.keys
  let missing := e.keys.keysBeyond expectedFields
  if !unsupported.isEmpty then
    writeLine ("[" ++ a.text ++ "] the index item for this function contains unsupported keys ("
      ++ joined unsupported ++ ")")
  if !missing.isEmpty then
    writeLine ("[" ++ a.text
      ++ "] the index item for this function is missing the required keys ("
      ++ joined missing ++ ")")
  return unsupported.isEmpty && missing.isEmpty

/-- Check one key of the contents caches. -/
def verifyKey (db : Snapshot) (a : Address) : Session Bool := do
  match db.functionOf? a with
  | none =>
    writeLine ("[" ++ a.text ++ "] the item in the index (" ++ a.text
      ++ ") has been orphaned and is not associated with a function")
    return false
  | some owner =>
    visit owner
    if owner ≠ a then
      writeLine ("[" ++ a.text ++ "] the item has the wrong parent (" ++ a.text
        ++ ") and should be owned by " ++ owner.text)
      return false
    match ← asks (·.readContents a) with
    | none => return true
    | some e => verifyFields a e

/-- Check keys in order, all of them whatever is found. -/
def verifyKeys (db : Snapshot) : List Address → Session Bool
  | [] => return true
  | a :: rest => do
    let ok ← verifyKey db a
    return ok && (← verifyKeys db rest)

/-- Check that every contents cache belongs to the entry point of a function and has exactly the
expected fields. -/
def verifyIndex (db : Snapshot) : Session Bool := do
  verifyKeys db (← asks (·.contentsKeys))

end Session

end TagCache
