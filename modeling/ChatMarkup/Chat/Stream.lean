import ChatMarkup.Chat.Error
import ChatMarkup.Chat.Message
import ChatMarkup.Text.Decoder

/-!
# Streamed replies

A reply that grows while its bytes come in, and a reader that is shown its text as it grows.  The
two take turns in any order: a text that the reader has not seen yet is replaced by a newer one.
-/

namespace ChatMarkup

/-- What a stream brings next, or the wish to stop reading it. -/
inductive StreamItem where
  | chunk (bytes : List UInt8)
  | failure (error : ChatError)
  | cancel
deriving DecidableEq, Repr

/-- How a stream ends that does not fail. -/
inductive StreamOutcome where
  | completed
  | aborted
deriving DecidableEq, Repr

/-- Whose turn it is: the reply takes the next item of its stream, or the reader takes the latest
text. -/
inductive Turn where
  | produce
  | consume
deriving DecidableEq, Repr

/-- A reply that is being streamed: the message so far, the bytes of an unfinished character, the
items that are still to come, the latest text and whether the reader has not seen it yet, the texts
that it has seen, and how the stream has ended. -/
structure Streaming where
  message : Message
  carried : List UInt8
  items : List StreamItem
  latest : String
  unseen : Bool
  shown : List String
  outcome : Option (Except ChatError StreamOutcome)

namespace Streaming

/-- A reply before its stream.  Its first text is still to be seen. -/
def start (message : Message) (items : List StreamItem) : Streaming :=
  ⟨message, [], items, message.text, true, [], none⟩

/-- More text at the end of the reply, which makes it the latest. -/
def addText (s : Streaming) (text : List Char) : Streaming :=
  if text = [] then s
  else
    let whole := s.message.text ++ String.ofList text
    { s with message := { s.message with text := whole }, latest := whole, unseen := true }

/-- More bytes at the end of the reply. -/
def append (s : Streaming) (bytes : List UInt8) : Streaming :=
  let (text, carried) := Utf8.decode s.carried bytes
  { s with carried := carried }.addText text

/-- The end of the stream: carried bytes become text, and the reply streams no more. -/
def finish (s : Streaming) (outcome : Except ChatError StreamOutcome) : Streaming :=
  let s := { s with carried := [] }.addText (Utf8.flush s.carried)
  { s with message := { s.message with streaming := false }, items := [], outcome := some outcome }

/-- Takes the next item of the stream, unless it has ended. -/
def produce (s : Streaming) : Streaming :=
  match s.outcome, s.items with
  | some _, _ => s
  | none, [] => s.finish (.ok .completed)
  | none, .chunk bytes :: items => { s with items := items }.append bytes
  | none, .failure e :: _ => s.finish (if e.isAbort then .ok .aborted else .error e)
  | none, .cancel :: _ => s.finish (.ok .aborted)

/-- Shows the reader the latest text, unless it has seen it. -/
def consume (s : Streaming) : Streaming :=
  if s.unseen then { s with unseen := false, shown := s.shown ++ [s.latest] } else s

/-- Takes a turn. -/
def turn (s : Streaming) : Turn → Streaming
  | .produce => s.produce
  | .consume => s.consume

/-- Takes what is left of the stream. -/
def produceAll (s : Streaming) : Streaming :=
  Nat.repeat produce (s.items.length + 1) s

/-- Takes turns by a schedule, then whatever the reply has left, then whatever the reader has
left. -/
def play (schedule : List Turn) (s : Streaming) : Streaming :=
  (schedule.foldl turn s).produceAll.consume

/-- How the stream has ended. -/
def result (s : Streaming) : Except ChatError StreamOutcome :=
  s.outcome.getD (.ok .completed)

end Streaming

end ChatMarkup
