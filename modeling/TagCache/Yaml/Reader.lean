import TagCache.Yaml.Token

/-!
# Reading YAML texts

`Yaml.read?` reads a text of one document from its tokens: sequences and mappings in lines or in
brackets, whose items, keys and values may be left out. A sequence of one member may stand in
brackets for a mapping of it, and a sequence whose items stand at the column of the keys around it
has no token that opens or closes it.
-/

namespace TagCache.Yaml

/-- Nothing written. -/
def void : Document := .leaf (.ofPlain "")

/-- Whether the next token is one of these. -/
def atToken (stops : List Token) : List Token → Bool
  | [] => false
  | t :: _ => stops.contains t

mutual

/-- A node. Inside brackets none stands in lines. -/
def node? : Nat → Bool → List Token → Option (Document × List Token)
  | fuel + 1, inBlock, t :: ts =>
    match t with
    | .scalar l => some (.leaf l, ts)
    | .flowSequence => (flowItems? fuel ts).map fun r => (.sequence r.1, r.2)
    | .flowMapping => (flowMembers? fuel ts).map fun r => (.mapping r.1, r.2)
    | .blockSequence =>
      if inBlock then (blockItems? fuel ts).map fun r => (.sequence r.1, r.2) else none
    | .blockMapping =>
      if inBlock then (blockMembers? fuel ts).map fun r => (.mapping r.1, r.2) else none
    | _ => none
  | _, _, _ => none

/-- A node that is left out if one of these tokens comes next. -/
def nodeOrVoid? : Nat → Bool → List Token → List Token → Option (Document × List Token)
  | 0, _, _, _ => none
  | fuel + 1, inBlock, stops, ts =>
    if atToken stops ts then some (void, ts) else node? fuel inBlock ts

/-- The items up to the end of a sequence in lines. -/
def blockItems? : Nat → List Token → Option (List Document × List Token)
  | fuel + 1, .item :: ts => do
    let (d, ts) ← nodeOrVoid? fuel true [.item, .blockEnd] ts
    let (ds, ts) ← blockItems? fuel ts
    return (d :: ds, ts)
  | _, .blockEnd :: ts => some ([], ts)
  | _, _ => none

/-- The items of a sequence at the column of the keys around it. -/
def levelItems? : Nat → List Token → Option (List Document × List Token)
  | 0, _ => none
  | fuel + 1, .item :: ts => do
    let (d, ts) ← nodeOrVoid? fuel true [.item, .key, .value, .blockEnd] ts
    let (ds, ts) ← levelItems? fuel ts
    return (d :: ds, ts)
  | _, ts => some ([], ts)

/-- A key or a value of a mapping in lines. -/
def blockPart? : Nat → List Token → Option (Document × List Token)
  | 0, _ => none
  | fuel + 1, ts =>
    if atToken [.item] ts then (levelItems? fuel ts).map fun r => (.sequence r.1, r.2)
    else nodeOrVoid? fuel true [.key, .value, .blockEnd] ts

/-- The members up to the end of a mapping in lines. -/
def blockMembers? : Nat → List Token → Option (List (Document × Document) × List Token)
  | fuel + 1, .key :: ts => do
    let (key, ts) ← blockPart? fuel ts
    let (value, ts) ← match ts with
      | .value :: ts => blockPart? fuel ts
      | ts => some (void, ts)
    let (members, ts) ← blockMembers? fuel ts
    return ((key, value) :: members, ts)
  | _, .blockEnd :: ts => some ([], ts)
  | _, _ => none

/-- The value that follows a key in brackets, where one of these tokens ends the member. -/
def flowValue? : Nat → List Token → List Token → Option (Document × List Token)
  | 0, _, _ => none
  | fuel + 1, ends, .value :: ts => nodeOrVoid? fuel false ends ts
  | _, _, ts => some (void, ts)

/-- The member of a mapping that stands as an item in brackets. Where its key is left out, the
token in place of it is passed over. -/
def flowPair? : Nat → List Token → Option ((Document × Document) × List Token)
  | 0, _ => none
  | fuel + 1, ts => do
    let isBare := atToken [.value, .comma, .flowSequenceEnd] ts
    let (key, ts) ← if isBare then some (void, ts.tail) else node? fuel false ts
    let (value, ts) ← flowValue? fuel [.comma, .flowSequenceEnd] ts
    return ((key, value), ts)

/-- The items up to the end of a bracketed sequence. -/
def flowItems? : Nat → List Token → Option (List Document × List Token)
  | 0, _ => none
  | _, .flowSequenceEnd :: ts => some ([], ts)
  | fuel + 1, ts => do
    let (d, ts) ← match ts with
      | .key :: ts => (flowPair? fuel ts).map fun r => (.mapping [r.1], r.2)
      | ts => node? fuel false ts
    match ts with
    | .comma :: ts =>
      let (ds, ts) ← flowItems? fuel ts
      return (d :: ds, ts)
    | .flowSequenceEnd :: ts => return ([d], ts)
    | _ => none

/-- The members up to the end of a bracketed mapping. -/
def flowMembers? : Nat → List Token → Option (List (Document × Document) × List Token)
  | 0, _ => none
  | _, .flowMappingEnd :: ts => some ([], ts)
  | fuel + 1, ts => do
    let ends := [.comma, .flowMappingEnd]
    let ((key, value), ts) ← match ts with
      | .key :: ts => do
        let (key, ts) ← nodeOrVoid? fuel false (.value :: ends) ts
        let (value, ts) ← flowValue? fuel ends ts
        some ((key, value), ts)
      | ts => (node? fuel false ts).map fun r => ((r.1, void), r.2)
    match ts with
    | .comma :: ts =>
      let (members, ts) ← flowMembers? fuel ts
      return ((key, value) :: members, ts)
    | .flowMappingEnd :: ts => return ([(key, value)], ts)
    | _ => none

end

/-- The node of a document, and what follows. -/
def content? (ts : List Token) : Option (Document × List Token) :=
  let fuel := 4 * ts.length + 4
  match ts with
  | .documentStart :: ts =>
    if ts.isEmpty then some (void, []) else
      nodeOrVoid? fuel true [.documentStart, .documentEnd] ts
  | ts => node? fuel true ts

/-- Read a text of one document, which must not be empty. -/
def read? (text : String) : Option Document := do
  let (d, rest) ← content? (← tokens? text)
  if rest.all (· = .documentEnd) then some d else none

end TagCache.Yaml
