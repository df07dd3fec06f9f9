import Quorum.Failure
import Quorum.Binary.Format
import Quorum.Text.Reading
import Quorum.Text.Quoted

/-! # Peers

A peer is known by its host, its port and an index that tells apart peers on one
endpoint. Its text is `host:port`, with `:index` unless that is zero; the text may be
read with blanks around each part.
-/

namespace Quorum

structure Peer where
  host : String
  port : UInt16
  index : UInt32
  deriving DecidableEq, Repr

/-- Why a text names no peer. -/
inductive PeerFault where
  | parts
  | emptyHost
  | port
  | zeroPort
  | index
  deriving DecidableEq, Repr

def PeerFault.message : PeerFault → String
  | .parts => "expected host:port[:index]"
  | .emptyHost => "empty host"
  | .port => "invalid port"
  | .zeroPort => "port cannot be 0"
  | .index => "invalid index"

namespace Peer

/-- Where the peer is reached. -/
def endpoint (peer : Peer) : String :=
  peer.host ++ ":" ++ toString peer.port.toNat

def display (peer : Peer) : String :=
  if peer.index = 0 then peer.endpoint else peer.endpoint ++ ":" ++ toString peer.index.toNat

/-- A peer as diagnostics show it. -/
def debug (peer : Peer) : String :=
  "PeerId \x7b host: " ++ Text.Quoting.text.quote peer.host ++ ", port: "
    ++ toString peer.port.toNat ++ ", index: " ++ toString peer.index.toNat ++ " \x7d"

/-- A peer from its host, port and index as they stand in a text. -/
def ofParts (host port : List Char) (index : Option (List Char)) : Except PeerFault Peer :=
  let host := Text.trim host
  if host = [] then .error .emptyHost
  else match Text.unsigned? 65535 (Text.trim port) with
    | none => .error .port
    | some 0 => .error .zeroPort
    | some port =>
        match index with
        | none => .ok ⟨.ofList host, .ofNat port, 0⟩
        | some index =>
            match Text.unsigned? 4294967295 (Text.trim index) with
            | none => .error .index
            | some index => .ok ⟨.ofList host, .ofNat port, .ofNat index⟩

def ofText (text : List Char) : Except PeerFault Peer :=
  match (Text.trim text).splitOn ':' with
  | [host, port] => ofParts host port none
  | [host, port, index] => ofParts host port (some index)
  | _ => .error .parts

/-- Reads a peer. A failure quotes the whole text. -/
def parse (text : String) : Except Failure Peer :=
  match ofText text.toList with
  | .ok peer => .ok peer
  | .error fault =>
      .error (.config ("Failed to parse peer id '" ++ text ++ "': " ++ fault.message))

def format : Binary.Format Peer :=
  (Binary.Format.string.pair (Binary.Format.u16.pair Binary.Format.u32)).convert
    (fun (host, port, index) => ⟨host, port, index⟩)
    (fun peer => (peer.host, peer.port, peer.index))

end Peer
end Quorum
