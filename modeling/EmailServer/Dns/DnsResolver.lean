import EmailServer.Dns.DnsPacket

/-! # DNS queries

`buildQuery` and `DnsResolver::query`. The random bytes of the identifier are parameters,
and so is the exchange over the socket: what is received for a query.
-/

namespace EmailServer.Dns

open EmailServer.Bytes Reader

/-- With the two bytes that `rand` gives. -/
def buildQuery (id0 id1 : UInt8) (name : Bytes) (type : UInt16) : Bytes :=
  let header : Bytes := [id0, id1, 0x01, 0x00, 0, 0x01, 0, 0, 0, 0, 0, 0]
  let labels : Bytes := name.map fun label => if label = dot then 0 else label
  let question : Bytes := [0, (type >>> 8).toUInt8, (type &&& 0xff).toUInt8, 0, 1]
  header ++ labels ++ question

/-- The memory from a buffer on begins with the bytes. -/
def Holds (buf : Memory) (bytes : Bytes) : Prop := ∀ i (within : i < bytes.length), buf i = bytes[i]

/-- What `recv` leaves in the buffer and behind it, and the number it returns, which becomes a
    `size_t`. -/
structure Received where
  buf : Memory
  len : Int

/-- `none` if the parser does not end with so much fuel. -/
def DnsResolver.query (exchange : Bytes → Received) (fuel : Nat) (id0 id1 : UInt8) (name : Bytes)
    (type : DnsRecordType) : Option (List Bytes) :=
  let received := exchange (buildQuery id0 id1 name type)
  (parseDnsResponse fuel received.buf (received.len % 2 ^ 64).toNat 0).map fun (pkt, _) =>
    (pkt.answers.filter (·.type = type)).map (·.data)

/-- `DnsResolver::lookupTxt` -/
def DnsResolver.lookupTxt (exchange : Bytes → Received) (fuel : Nat) (id0 id1 : UInt8)
    (name : Bytes) : Option (List Bytes) :=
  query exchange fuel id0 id1 name DnsRecordType.TXT

end EmailServer.Dns
