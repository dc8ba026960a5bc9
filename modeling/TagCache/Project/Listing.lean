import TagCache.Project.Basic

/-!
# Listings of a project

`Project.listSegments` shows the segments of a snapshot or the one that is selected, and
`Project.listRuns` shows the history of the cache, each as text or as JSON.
-/

namespace TagCache

/-- The first bytes of a text, as far as they are whole characters. -/
def shortened (bytes : Nat) (text : String) : String :=
  String.ofList (go bytes text.toList)
where
  /-- The characters that fit. -/
  go : Nat → List Char → List Char
  | _, [] => []
  | room, c :: cs => if c.utf8Size ≤ room then c :: go (room - c.utf8Size) cs else []

/-- The line of a record in a listing. -/
def RunRecord.line (r : RunRecord) : String :=
  "- " ++ r.operation ++ " [" ++ r.status.text ++ "] snapshot "
    ++ (r.snapshotHash.map (shortened 12)).getD "-" ++ " (" ++ r.startedAt ++ " -> " ++ r.finishedAt
    ++ ") " ++ r.detail.getD ""

/-- The line of a segment in a listing. -/
def Segment.line (s : Segment) : String := "- #" ++ Text.decimal s.handle.toNat ++ " " ++ s.text

namespace Project

variable {m : Type → Type} [Monad m] [Host m] {α : Type}

/-- Show items under a title, or as JSON. -/
def list (title : String) (line : α → String) (toJson : α → Json) (asJson : Bool)
    (items : List α) : m Unit := do
  if asJson then Host.printLine (Json.array (items.map toJson)).pretty
  else
    Host.printLine title
    if items.isEmpty then Host.printLine "(none)" else items.forM fun i => Host.printLine (line i)

/-- The segments of a project, or the one that a text selects. -/
def selectSegments (p : Project) : Option String → Except Problem (List Segment)
  | none => .ok p.snapshot.segments
  | some text =>
    let selector := Selector.parse text
    match Segment.select? p.snapshot.segments p.snapshot.cursor selector with
    | some segment => .ok [segment]
    | none =>
      .error (.within ("Failed to select segment '" ++ text ++ "'")
        (.failure (.segmentNotFound selector)))

/-- Show the segments of a project, or the one that is selected. -/
def listSegments (p : Project) (select : Option String) (asJson : Bool) : Step m Unit := do
  let segments ← Step.orStop id (p.selectSegments select)
  ExceptT.lift (list "Segments:" Segment.line Segment.toJson asJson segments)

/-- Show the history of the cache. -/
def listRuns (p : Project) (asJson : Bool) : Step m Unit := do
  let runs ← Step.orStop (fun e => .within "Failed to list rebuild runs" (.failure e))
    p.store.listRuns
  ExceptT.lift (list "Cache operations:" RunRecord.line RunRecord.toJson asJson runs)

end Project

end TagCache
