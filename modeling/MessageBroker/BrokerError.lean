import MessageBroker.Ident
import MessageBroker.Json.Encoding
import MessageBroker.Json.Fault

/-!
# Errors of the broker

The causes for which an operation of the broker is refused. Two of them mean that a name is not
registered, and two are errors that a caller can pass over without losing a message.
-/

namespace MessageBroker

/-- Why an operation was refused. -/
inductive BrokerError where
  | topicNotFound (topic : String)
  | queueNotFound (queue : String)
  | invalidReceipt (receipt : Ident)
  | encoding (fault : Json.EncodingFault)
  | decoding (error : Json.ReadError)
  | deadlineExceeded (topic : String) (delivered remaining : Nat)
  | cancelled
deriving DecidableEq

namespace BrokerError

/-- The error in words, given the texts of generated identifiers. -/
def message (spell : Nat → String) : BrokerError → String
  | .topicNotFound topic => "topic not found: " ++ topic
  | .queueNotFound queue => "queue not found: " ++ queue
  | .invalidReceipt receipt => "invalid or expired receipt handle: " ++ receipt.spelled spell
  | .encoding fault => "failed to encode message payload: " ++ fault.message
  | .decoding error => "failed to decode message payload: " ++ error.message
  | .deadlineExceeded topic delivered remaining =>
    "publish deadline exceeded on topic '" ++ topic ++ "': delivered " ++
      String.ofList (Decimal.natural delivered) ++ ", skipped " ++
      String.ofList (Decimal.natural remaining)
  | .cancelled => "operation cancelled"

/-- A name was used that is not registered. -/
def isNotFound : BrokerError → Bool
  | .topicNotFound _ | .queueNotFound _ => true
  | _ => false

/-- No message is lost by passing over the error: a refused handle means that the message was
settled or will be delivered again, and a late publication can be repeated. -/
def isRecoverable : BrokerError → Bool
  | .invalidReceipt _ | .deadlineExceeded .. => true
  | _ => false

end BrokerError

end MessageBroker
