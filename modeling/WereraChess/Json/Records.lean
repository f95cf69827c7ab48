import WereraChess.Json.Form
import WereraChess.Message
/-!
# Forms of the game's records

How squares, pieces, boards, moves, sessions and messages are written as JSON.
-/

namespace WereraChess

open JsonForm

instance : JsonForm Side where
  write s := .ofText s.name
  read := Json.readName [.white, .black] Side.name

instance : JsonForm Variant where
  write v := .ofText v.name
  read := Json.readName [.senterej, .standard] Variant.name

instance : JsonForm Kind where
  write k := .ofText k.name
  read := Json.readName Kind.all Kind.name

instance : JsonForm Alphabet where
  write a := .ofText a.name
  read := Json.readName [.shared, .senterej] Alphabet.name

instance : JsonForm EndReason where
  write r := .ofText r.name
  read := Json.readName EndReason.all EndReason.name

instance : JsonForm Phase where
  write
    | .complete reason => .record [("complete", write reason)]
    | phase => .ofText phase.text
  read
    | .obj [(.text "complete", reason)] => (read reason).map .complete
    | j => Json.readName [.werera, .normal] Phase.text j

instance : JsonForm Session.Status where
  write
    | .complete reason => .record [("complete", write reason)]
    | status => .ofText status.text
  read
    | .obj [(.text "complete", reason)] => (read reason).map .complete
    | j => Json.readName [.waiting, .active] Session.Status.text j

instance : JsonForm Uuid where
  write id := .ofText id.text
  read
    | .str (.text s) => Uuid.ofText? s
    | _ => none

instance : JsonForm Coord where
  write c := .record [("row", write c.row), ("col", write c.col)]
  read j := do
    let f ← j.slots? ["row", "col"]
    return { row := ← f.required "row", col := ← f.required "col" }

instance : JsonForm Piece where
  write p :=
    .record [("kind", write p.kind), ("owner", write p.owner), ("has_moved", write p.hasMoved)]
  read j := do
    let f ← j.slots? ["kind", "owner", "has_moved"]
    return {
      kind := ← f.required "kind"
      owner := ← f.required "owner"
      hasMoved := ← f.defaulted "has_moved" false }

/-- A board is written row by row; eight rows of eight squares are read. -/
instance : JsonForm Board where
  write b := .record [("squares", write b.rows)]
  read j := do
    let f ← j.slots? ["squares"]
    let rows : List (List (Option Piece)) ← f.required "squares"
    if rows.map List.length = List.replicate 8 8 then some (Board.ofRows rows) else none

instance : JsonForm Captures where
  write c := .record [("white_captured", write c.byWhite), ("black_captured", write c.byBlack)]
  read j := do
    let f ← j.slots? ["white_captured", "black_captured"]
    return {
      byWhite := ← f.required "white_captured"
      byBlack := ← f.required "black_captured" }

instance : JsonForm Ending where
  write e := .record [("reason", write e.reason), ("winner", write e.winner)]
  read j := do
    let f ← j.slots? ["reason", "winner"]
    return { reason := ← f.required "reason", winner := ← f.optional "winner" }

instance : JsonForm HouseRules where
  write r :=
    .record [("dedup_window_ms", write r.dedupWindow),
      ("allow_self_check_in_werera", write r.selfCheckInWerera)]
  read j := do
    let f ← j.slots? ["dedup_window_ms", "allow_self_check_in_werera"]
    let usual : HouseRules := {}
    return {
      dedupWindow := ← f.defaulted "dedup_window_ms" usual.dedupWindow
      selfCheckInWerera := ← f.defaulted "allow_self_check_in_werera" usual.selfCheckInWerera }

instance : JsonForm Move where
  write m :=
    .record [("id", write m.id), ("from", write m.source), ("to", write m.target),
      ("mover", write m.mover), ("piece", write m.piece), ("captured", write m.captured),
      ("timestamp", write m.timestamp)]
  read j := do
    let f ← j.slots? ["id", "from", "to", "mover", "piece", "captured", "timestamp"]
    return {
      id := ← f.required "id"
      source := ← f.required "from"
      target := ← f.required "to"
      mover := ← f.required "mover"
      piece := ← f.required "piece"
      captured := ← f.optional "captured"
      timestamp := ← f.required "timestamp" }

instance : JsonForm MoveLog where
  write log := .record [("moves", write log.moves)]
  read j := do
    let f ← j.slots? ["moves"]
    return { moves := ← f.required "moves" }

instance : JsonForm Opening where
  write o :=
    .record [("board", write o.board), ("phase", write o.phase), ("turn", write o.turn),
      ("move_count", write o.moveCount)]
  read j := do
    let f ← j.slots? ["board", "phase", "turn", "move_count"]
    return {
      board := ← f.required "board"
      phase := ← f.required "phase"
      turn := ← f.required "turn"
      moveCount := ← f.required "move_count" }

instance : JsonForm Progress where
  write p :=
    .record [("phase", write p.phase), ("current_turn", write p.turn), ("outcome", write p.ending)]
  read j := do
    let f ← j.slots? ["phase", "current_turn", "outcome"]
    return {
      phase := ← f.required "phase"
      turn := ← f.required "current_turn"
      ending := ← f.optional "outcome" }

instance : JsonForm Standing where
  write s :=
    .record [("variant", write s.variant), ("board", write s.board),
      ("current_player", write s.turn), ("captured_pieces", write s.captures),
      ("check", write s.check), ("checkmate", write s.checkmate),
      ("stalemate", write s.stalemate), ("winner", write s.winner), ("phase", write s.phase),
      ("move_count", write s.moveCount), ("outcome", write s.ending),
      ("skipped", write s.skipped)]
  read j := do
    let f ← j.slots? ["variant", "board", "current_player", "captured_pieces", "check",
      "checkmate", "stalemate", "winner", "phase", "move_count", "outcome", "skipped"]
    return {
      variant := ← f.required "variant"
      board := ← f.required "board"
      turn := ← f.required "current_player"
      captures := ← f.required "captured_pieces"
      check := ← f.required "check"
      checkmate := ← f.required "checkmate"
      stalemate := ← f.required "stalemate"
      winner := ← f.optional "winner"
      phase := ← f.required "phase"
      moveCount := ← f.required "move_count"
      ending := ← f.optional "outcome"
      skipped := ← f.required "skipped" }

instance : JsonForm Participant where
  write p := .record [("id", write p.id), ("name", write p.name)]
  read j := do
    let f ← j.slots? ["id", "name"]
    return { id := ← f.required "id", name := ← f.required "name" }

instance : JsonForm Seats where
  write s := .record [("white", write s.white), ("black", write s.black)]
  read j := do
    let f ← j.slots? ["white", "black"]
    return { white := ← f.optional "white", black := ← f.optional "black" }

instance : JsonForm Session where
  write s :=
    .record [("id", write s.id), ("variant", write s.variant), ("players", write s.seats),
      ("start", write s.opening), ("log", write s.log), ("resolution", write s.resolution),
      ("config", write s.rules)]
  read j := do
    let f ← j.slots? ["id", "variant", "players", "start", "log", "resolution", "config"]
    return {
      id := ← f.required "id"
      variant := ← f.required "variant"
      seats := ← f.required "players"
      opening := ← f.required "start"
      log := ← f.required "log"
      resolution := ← f.optional "resolution"
      rules := ← f.defaulted "config" {} }

namespace Message

def tag : Message → String
  | sessionOpened _ => "SessionOpened"
  | playerJoined _ _ => "PlayerJoined"
  | movePublished _ _ => "MovePublished"
  | moveRejected _ _ _ => "MoveRejected"
  | resigned _ _ => "Resigned"
  | timedOut _ _ => "TimedOut"
  | gameEnded _ _ => "GameEnded"
  | rematchRequested _ => "RematchRequested"

def fields : Message → List (String × Json)
  | sessionOpened s => [("session", write s)]
  | playerJoined id player => [("session_id", write id), ("player", write player)]
  | movePublished id move => [("session_id", write id), ("mv", write move)]
  | moveRejected id reason message =>
    [("session_id", write id), ("reason", write reason), ("message", write message)]
  | resigned id side => [("session_id", write id), ("player", write side)]
  | timedOut id side => [("session_id", write id), ("player", write side)]
  | gameEnded id ending => [("session_id", write id), ("event", write ending)]
  | rematchRequested id => [("session_id", write id)]

def ofFields? (tag : String) (j : Json) : Option Message :=
  match tag with
  | "SessionOpened" => do
    let f ← j.slots? ["session"]
    return .sessionOpened (← f.required "session")
  | "PlayerJoined" => do
    let f ← j.slots? ["session_id", "player"]
    return .playerJoined (← f.required "session_id") (← f.required "player")
  | "MovePublished" => do
    let f ← j.slots? ["session_id", "mv"]
    return .movePublished (← f.required "session_id") (← f.required "mv")
  | "MoveRejected" => do
    let f ← j.slots? ["session_id", "reason", "message"]
    return .moveRejected (← f.required "session_id") (← f.required "reason")
      (← f.required "message")
  | "Resigned" => do
    let f ← j.slots? ["session_id", "player"]
    return .resigned (← f.required "session_id") (← f.required "player")
  | "TimedOut" => do
    let f ← j.slots? ["session_id", "player"]
    return .timedOut (← f.required "session_id") (← f.required "player")
  | "GameEnded" => do
    let f ← j.slots? ["session_id", "event"]
    return .gameEnded (← f.required "session_id") (← f.required "event")
  | "RematchRequested" => do
    let f ← j.slots? ["session_id"]
    return .rematchRequested (← f.required "session_id")
  | _ => none

end Message

/-- A message is an object with one member, its name, which holds its fields. -/
instance : JsonForm Message where
  write m := .record [(m.tag, .record m.fields)]
  read
    | .obj [(.text tag, j)] => Message.ofFields? tag j
    | _ => none

end WereraChess
