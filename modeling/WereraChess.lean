import WereraChess.FileTree
import WereraChess.Main
import WereraChess.Peer
import WereraChess.Proofs.Canonical
import WereraChess.Proofs.Insertion
import WereraChess.Proofs.Course
import WereraChess.Proofs.Verdict
import WereraChess.Proofs.Submission
import WereraChess.Proofs.Reached
import WereraChess.Proofs.Duel
import WereraChess.Proofs.Convergence
import WereraChess.Proofs.Line
import WereraChess.Proofs.LinearPlay
import WereraChess.Proofs.Checkpoint
import WereraChess.Proofs.Text
import WereraChess.Proofs.Kings
import WereraChess.Proofs.Unmoved
import WereraChess.Proofs.Fen.Letters
import WereraChess.Proofs.Fen.Reading
import WereraChess.Proofs.Fen.Writing
import WereraChess.Proofs.Fen.RoundTrip
import WereraChess.Proofs.Openings
import WereraChess.Proofs.Liveness
import WereraChess.Proofs.Outlook
import WereraChess.Proofs.Reimport
import WereraChess.Proofs.Reach
import WereraChess.Proofs.Conservation
import WereraChess.Proofs.KingSafety
import WereraChess.Proofs.Fen.Symbols
import WereraChess.Proofs.Fen.Grammar
import WereraChess.Proofs.Messages
import WereraChess.Proofs.Endings
import WereraChess.Proofs.Declarations
import WereraChess.Proofs.Delivery
import WereraChess.Proofs.Harmless
import WereraChess.Proofs.Provenance
import WereraChess.Proofs.Arrivals
import WereraChess.Proofs.Announcements
import WereraChess.Proofs.Json.Quoted
import WereraChess.Proofs.Json.Scanning
import WereraChess.Proofs.Json.Reading
import WereraChess.Proofs.Json.Forms
import WereraChess.Proofs.Json.Records
import WereraChess.Proofs.Performance
import WereraChess.Proofs.Printout
import WereraChess.Proofs.Relay
import WereraChess.Proofs.Application
import WereraChess.Proofs.Accounts
import WereraChess.Proofs.Turns
import WereraChess.Proofs.Newest
import WereraChess.Proofs.Mirror.Board
import WereraChess.Proofs.Mirror.Replay
import WereraChess.Proofs.Attack
import WereraChess.Proofs.Finality
import WereraChess.Proofs.Suppression
import WereraChess.Proofs.Listing
import WereraChess.Proofs.Offers
import WereraChess.Proofs.Fen.NormalForm
import WereraChess.Proofs.Influence
import WereraChess.Proofs.Bytes.Movement
import WereraChess.Proofs.Bytes.Judgement
import WereraChess.Proofs.Bytes.Replay
import WereraChess.Proofs.Bytes.Faultless
import WereraChess.Proofs.SquareNames
import WereraChess.Proofs.InPlace
import WereraChess.Proofs.Room
import WereraChess.Proofs.Register
import WereraChess.Proofs.Omission
