import PetriCcs.Error
import PetriCcs.Net.Basic

/-! # Edits

An edit changes a net and returns a value or the reason of its refusal; the net that it leaves
behind is part of its result also when it is refused.  Edits check their arguments before they
write.  A stored handle that leads nowhere ends an edit with a dangling error.

Removing an edge or a node moves the last one of its collection into the freed position, and the
links to it follow. -/

namespace PetriCcs

/-- A change of a net that may be refused. -/
abbrev Edit := ExceptT NetError (StateM Net)

namespace Edit

/-- What an edit returns from a net, and the net it leaves behind. -/
def runOn {α : Type} (edit : Edit α) (net : Net) : Except NetError α × Net := edit.run.run net

/-! ### Single cells -/

/-- Changes the place under a stored handle. -/
def updatePlace (id : PlaceId) (f : Place → Place) : Edit Unit := do
  let net ← get
  match net.places.update? id f with
  | some places => set { net with places }
  | none => throw (.dangling (.node (.place id)))

/-- Changes the transition under a stored handle. -/
def updateTransition (id : TransitionId) (f : Transition → Transition) : Edit Unit := do
  let net ← get
  match net.transitions.update? id f with
  | some transitions => set { net with transitions }
  | none => throw (.dangling (.node (.transition id)))

/-- Changes the edge under a stored handle. -/
def updateEdge (id : EdgeId) (f : Edge → Edge) : Edit Unit := do
  let net ← get
  match net.edges.update? id f with
  | some edges => set { net with edges }
  | none => throw (.dangling (.edge id))

/-- The edge under a stored handle. -/
def storedEdge (id : EdgeId) : Edit Edge := do
  match (← get).edge? id with
  | some edge => pure edge
  | none => throw (.dangling (.edge id))

/-- Changes the list of edges that leave a node. -/
def updateOutgoing (node : Node) (f : List EdgeId → List EdgeId) : Edit Unit :=
  match node with
  | .place id => updatePlace id fun place => { place with outgoing := f place.outgoing }
  | .transition id =>
    updateTransition id fun transition => { transition with outgoing := f transition.outgoing }

/-- Changes the list of edges that enter a node. -/
def updateIncoming (node : Node) (f : List EdgeId → List EdgeId) : Edit Unit :=
  match node with
  | .place id => updatePlace id fun place => { place with incoming := f place.incoming }
  | .transition id =>
    updateTransition id fun transition => { transition with incoming := f transition.incoming }

/-- The edges that leave a node under a stored handle. -/
def storedOutgoing (node : Node) : Edit (List EdgeId) := do
  match (← get).outgoing? node with
  | some edges => pure edges
  | none => throw (.dangling (.node node))

/-- The edges that enter a node under a stored handle. -/
def storedIncoming (node : Node) : Edit (List EdgeId) := do
  match (← get).incoming? node with
  | some edges => pure edges
  | none => throw (.dangling (.node node))

/-! ### Adding -/

/-- Names start at 1. -/
def checkHint (hint : Option NameIndex) : Edit Unit :=
  if hint = some 0 then throw (.invalidArgument .zeroName) else pure ()

/-- Adds a place under the hinted name if that is free, else under the first free one. -/
def addPlace (hint : Option NameIndex) (tokens : Weight) : Edit PlaceId := do
  checkHint hint
  let net ← get
  let name := net.placeNames.resolve hint
  let id := net.places.nextHandle
  set { net with
    places := net.places.push { id, name, tokens }
    placeNames := net.placeNames.claim name }
  return id

/-- Adds a transition with a finished label, named like a place. -/
def addLabelledTransition (hint : Option NameIndex) (label : Label) : Edit TransitionId := do
  checkHint hint
  let net ← get
  let name := net.transitionNames.resolve hint
  let id := net.transitions.nextHandle
  set { net with
    transitions := net.transitions.push { id, name, label }
    transitionNames := net.transitionNames.claim name }
  return id

/-- Adds a transition whose label is read from text. -/
def addTransition (hint : Option NameIndex) (label : String) : Edit TransitionId :=
  match Label.parse? label with
  | some parsed => addLabelledTransition hint parsed
  | none => throw (.invalidArgument (.newLabel label))

/-- Refuses a node that the net did not issue. -/
def checkNode (node : Node) : Edit Unit := do
  unless (← get).contains node do throw (.unrelatedNode node)

/-- An edge joins a place and a transition; it consumes one token or produces at least one. -/
def checkEdge (source target : Node) (weight : Weight) : Edit Unit :=
  match source, target with
  | .place _, .transition _ =>
    if weight = 1 then pure () else throw (.invalidArgument (.consumingWeight weight))
  | .transition _, .place _ =>
    if weight = 0 then throw (.invalidArgument .producingWeight) else pure ()
  | _, _ => throw (.invalidArgument (.sameSide source target))

/-- Adds an edge at the end of both lists of its endpoints. -/
def addEdge (source target : Node) (weight : Weight) : Edit EdgeId := do
  checkNode source
  checkNode target
  checkEdge source target weight
  let net ← get
  if (net.findEdge? source target).isSome then throw (.duplicateEdge source target)
  let id := net.edges.nextHandle
  set { net with edges := net.edges.push { id, source, target, weight } }
  updateOutgoing source (· ++ [id])
  updateIncoming target (· ++ [id])
  return id

/-! ### Removing -/

/-- Writes `new` for every `old`. -/
def replaceHandle (old new : EdgeId) (edges : List EdgeId) : List EdgeId :=
  edges.map fun e => if e = old then new else e

/-- Gives the edge now stored under `id` that handle, in place of its former one. -/
def adoptEdge (old id : EdgeId) : Edit Unit := do
  updateEdge id ({ · with id })
  let moved ← storedEdge id
  updateOutgoing moved.source (replaceHandle old id)
  updateIncoming moved.target (replaceHandle old id)

/-- Removes an edge and returns it; the last edge takes over its handle. -/
def removeEdge (id : EdgeId) : Edit Edge := do
  match (← get).edge? id with
  | none => throw (.unrelatedEdge id)
  | some removed =>
    updateOutgoing removed.source (·.filter (· ≠ id))
    updateIncoming removed.target (·.filter (· ≠ id))
    let net ← get
    match net.edges.swapRemove? id with
    | none => pure ()
    | some removal =>
      set { net with edges := removal.rest }
      match removal.movedFrom with
      | none => pure ()
      | some old => adoptEdge old id
    return removed

/-- Removes the last of the listed edges until none is left, in at most `rounds` rounds. -/
def drain (listed : Edit (List EdgeId)) : Nat → Edit Unit
  | 0 => pure ()
  | rounds + 1 => do
    match (← listed).getLast? with
    | none => pure ()
    | some id =>
      let _ ← removeEdge id
      drain listed rounds

/-- Removes the edges listed last first; each round takes one of the edges of the net. -/
def removeListed (listed : Edit (List EdgeId)) : Edit Unit := do
  drain listed ((← get).edges.size + 1)

/-- Removes every edge of a node, the incoming ones first. -/
def detach (node : Node) : Edit Unit := do
  removeListed (storedIncoming node)
  removeListed (storedOutgoing node)

/-- Points the edges of a node at its handle. -/
def reattach (node : Node) : Edit Unit := do
  let incoming ← storedIncoming node
  let outgoing ← storedOutgoing node
  incoming.forM fun id => updateEdge id ({ · with target := node })
  outgoing.forM fun id => updateEdge id ({ · with source := node })

/-- Removes a place with its edges and returns it; the last place takes over its handle. -/
def removePlace (id : PlaceId) : Edit Place := do
  unless (← get).places.contains id do throw (.unrelatedNode (.place id))
  detach (.place id)
  let net ← get
  match net.places.swapRemove? id with
  | none => throw (.unrelatedNode (.place id))
  | some removal =>
    set { net with
      places := removal.rest
      placeNames := net.placeNames.release removal.value.name }
    if removal.movedFrom.isSome then
      updatePlace id ({ · with id })
      reattach (.place id)
    return removal.value

/-- Removes a transition with its edges and returns it; the last one takes over its handle. -/
def removeTransition (id : TransitionId) : Edit Transition := do
  unless (← get).transitions.contains id do throw (.unrelatedNode (.transition id))
  detach (.transition id)
  let net ← get
  match net.transitions.swapRemove? id with
  | none => throw (.unrelatedNode (.transition id))
  | some removal =>
    set { net with
      transitions := removal.rest
      transitionNames := net.transitionNames.release removal.value.name }
    if removal.movedFrom.isSome then
      updateTransition id ({ · with id })
      reattach (.transition id)
    return removal.value

/-! ### Setting -/

def setTokens (id : PlaceId) (tokens : Weight) : Edit Unit := do
  unless (← get).places.contains id do throw (.unrelatedNode (.place id))
  updatePlace id ({ · with tokens })

/-- Puts a label read from text on a transition; the label is checked first. -/
def setLabel (id : TransitionId) (label : String) : Edit Unit := do
  match Label.parse? label with
  | none => throw (.invalidArgument (.replacementLabel label))
  | some label =>
    unless (← get).transitions.contains id do throw (.unrelatedNode (.transition id))
    updateTransition id ({ · with label })

/-- Drops all nodes and edges and frees all names. -/
def clear : Edit Unit := modify Net.clear

end Edit
end PetriCcs
