namespace EvidenceExchange

inductive ReceiverState where
  | listening
  | accepted
  | readingFrame
  | decoding
  | done
  | failed
  deriving DecidableEq

namespace ReceiverState

def rank : ReceiverState → Nat
  | listening => 0
  | accepted => 1
  | readingFrame => 2
  | decoding => 3
  | done => 4
  | failed => 5

def name : ReceiverState → String
  | listening => "Listening"
  | accepted => "Accepted"
  | readingFrame => "ReadingFrame"
  | decoding => "Decoding"
  | done => "Done"
  | failed => "Failed"

def all : List ReceiverState := [listening, accepted, readingFrame, decoding, done, failed]

def ofName? (s : String) : Option ReceiverState := all.find? (·.name == s)

def isTerminal : ReceiverState → Bool
  | done | failed => true
  | _ => false

instance : Ord ReceiverState := ⟨fun a b => compare a.rank b.rank⟩

end ReceiverState

inductive SenderState where
  | connecting
  | writing
  | done
  | failed
  deriving DecidableEq

namespace SenderState

def rank : SenderState → Nat
  | connecting => 0
  | writing => 1
  | done => 2
  | failed => 3

def name : SenderState → String
  | connecting => "Connecting"
  | writing => "Writing"
  | done => "Done"
  | failed => "Failed"

def all : List SenderState := [connecting, writing, done, failed]

def ofName? (s : String) : Option SenderState := all.find? (·.name == s)

def isTerminal : SenderState → Bool
  | done | failed => true
  | _ => false

instance : Ord SenderState := ⟨fun a b => compare a.rank b.rank⟩

end SenderState

end EvidenceExchange
