import Flowline.Table
import Flowline.Value.Number

/-!
A bus for messages: subscribers are told of the messages under their topics, and the latest messages are
kept.
-/

namespace Flowline

/-- A message under a topic. -/
structure Message where
  topic : String
  payload : Value
  headers : Value
deriving Repr

/-- Subscribers by topic, and the latest messages, the oldest one first. -/
structure Bus where
  /-- How many messages are kept. -/
  capacity : Nat
  subscribers : Table String (List String)
  history : List Message
deriving Repr

namespace Bus

def ofCapacity (capacity : Nat) : Bus := ⟨capacity, [], []⟩

/-- The subscribers of a topic, once for each subscription. -/
def subscribersOf (b : Bus) (topic : String) : List String := (b.subscribers.get? topic).getD []

def subscribe (b : Bus) (topic name : String) : Bus :=
  { b with subscribers := b.subscribers.put topic (b.subscribersOf topic ++ [name]) }

/-- Ends one subscription. A topic without subscribers is forgotten. -/
def unsubscribe (b : Bus) (topic name : String) : Bus :=
  let left := (b.subscribersOf topic).erase name
  let subscribers := if left.isEmpty then b.subscribers.erase topic else b.subscribers.put topic left
  { b with subscribers := subscribers }

/-- Publishes a message; headers that are not present are empty. The result has those who are told. -/
def publish (b : Bus) (topic : String) (payload headers : Value) : List String × Bus :=
  let headers := if headers.isPresent then headers else .map []
  let history := b.history ++ [⟨topic, payload, headers⟩]
  (b.subscribersOf topic, { b with history := history.drop (history.length - b.capacity) })

def messagesFor (b : Bus) (topic : String) : List Message := b.history.filter (·.topic == topic)

end Bus

end Flowline
