/-
  rtpsources.h, rtpipv4destination.h, rtpudpv4transmitter.h, rtpudpv6transmitter.h — the hash
  tables of a session.

  All of them have 8317 buckets, and an index that is a remainder (`inTable`).  The
  destinations of a transmitter are compared by `operator==`, which is equality of
  address and port (`eq_iff`).
-/
import RayionClient.HashTable
import RayionClient.WinSock

namespace RayionClient

open Base

/-! ## The sources, and the addresses of the IPv4 transmitter -/

/-- `RTPSOURCES_HASHSIZE` -/
def rtpSourcesHashSize : ℕ := 8317

/-- `RTPUDPV4TRANS_HASHSIZE` -/
def rtpUDPv4TransHashSize : ℕ := 8317

/-- `RTPSources_GetHashIndex`. -/
def sourceIndex (ssrc : UInt32) : ℤ := (ssrc % UInt32.ofNat rtpSourcesHashSize).toNat

/-- `RTPUDPv4Trans_GetHashIndex_uint32_t`. -/
def ipv4Index (k : UInt32) : ℤ := (k % UInt32.ofNat rtpUDPv4TransHashSize).toNat

/-- `RTPSources::sourcelist`. -/
def sourcelist : TableParams UInt32 := keyHashTable sourceIndex rtpSourcesHashSize

/-- `RTPUDPv4Transmitter::multicastgroups`. -/
def multicastgroups : TableParams UInt32 := hashTable ipv4Index rtpUDPv4TransHashSize

/-- `RTPUDPv4Transmitter::acceptignoreinfo`. -/
def acceptignoreinfo : TableParams UInt32 := keyHashTable ipv4Index rtpUDPv4TransHashSize

/-- A remainder is an index of the table. -/
theorem inTable_mod {K : Type} {p : TableParams K} (k : UInt32) (hsize : p.hashsize = 8317) :
    HashTable.InTable p (k % UInt32.ofNat 8317).toNat := by
  have h8317 : (UInt32.ofNat 8317).toNat = 8317 := rfl
  rw [HashTable.InTable, UInt32.toNat_mod, hsize, h8317]
  omega

theorem sourcelist_inTable (ssrc : UInt32) :
    HashTable.InTable sourcelist (sourcelist.getIndex ssrc) := inTable_mod ssrc rfl

theorem multicastgroups_inTable (k : UInt32) :
    HashTable.InTable multicastgroups (multicastgroups.getIndex k) := inTable_mod k rfl

theorem acceptignoreinfo_inTable (k : UInt32) :
    HashTable.InTable acceptignoreinfo (acceptignoreinfo.getIndex k) := inTable_mod k rfl

/-! ## Destinations -/

/-- The byte swap of a little-endian host. -/
def htonl (w : UInt32) : UInt32 := ntohl w

theorem ntohl_htonl (w : UInt32) : ntohl (htonl w) = w := by
  have hrev : ∀ j : Fin 4, Fin.rev (Fin.rev j) = j := Fin.rev_rev
  change ntohl (loadLE fun j => (wordByte w (Fin.rev j)).toUInt8) = w
  rw [ntohl_loadLE, loadBE]
  simp only [hrev]
  exact loadLE_wordByte w

/-- `RTPIPv4Destination`.  The constructor fills in the two addresses. -/
@[ext] structure RTPIPv4Destination where
  ip : UInt32
  rtpaddr : SockaddrIn
  rtcpaddr : SockaddrIn
  built : ∃ rtpportbase, rtpaddr = ⟨afInet, htons rtpportbase, htonl ip⟩ ∧
    rtcpaddr = ⟨afInet, htons (rtpportbase + 1), htonl ip⟩

namespace RTPIPv4Destination

/-- The constructor. -/
def ofPort (ip : UInt32) (rtpportbase : UInt16) : RTPIPv4Destination where
  ip := ip
  rtpaddr := ⟨afInet, htons rtpportbase, htonl ip⟩
  rtcpaddr := ⟨afInet, htons (rtpportbase + 1), htonl ip⟩
  built := ⟨rtpportbase, rfl, rfl⟩

/-- `operator==`. -/
def eq (d src : RTPIPv4Destination) : Bool :=
  if d.rtpaddr.sin_addr = src.rtpaddr.sin_addr ∧ d.rtpaddr.sin_port = src.rtpaddr.sin_port then true
  else false

/-- **`operator==` is equality**, of the addresses of the RTCP packets too. -/
theorem eq_iff {d src : RTPIPv4Destination} : d.eq src = true ↔ d = src := by
  constructor
  · obtain ⟨ip, rtpaddr, rtcpaddr, port, rfl, rfl⟩ := d
    obtain ⟨ip', rtpaddr', rtcpaddr', port', rfl, rfl⟩ := src
    intro h
    obtain ⟨haddr, hport⟩ : htonl ip = htonl ip' ∧ htons port = htons port' := by
      simpa [eq] using h
    obtain rfl : ip = ip' := by rw [← ntohl_htonl ip, haddr, ntohl_htonl]
    obtain rfl : port = port' := by rw [← ntohs_htons port, hport, ntohs_htons]
    rfl
  · rintro rfl
    simp [eq]

/-- Destinations are compared by `operator==`. -/
instance : DecidableEq RTPIPv4Destination := fun _ _ => decidable_of_iff _ eq_iff

/-- `RTPUDPv4Trans_GetHashIndex_IPv4Dest`. -/
def getIndex (d : RTPIPv4Destination) : ℤ := (d.ip % UInt32.ofNat rtpUDPv4TransHashSize).toNat

end RTPIPv4Destination

/-- `RTPUDPv4Transmitter::destinations`. -/
def destinations : TableParams RTPIPv4Destination :=
  hashTable RTPIPv4Destination.getIndex rtpUDPv4TransHashSize

theorem destinations_inTable (d : RTPIPv4Destination) :
    HashTable.InTable destinations (destinations.getIndex d) := inTable_mod d.ip rfl

end RayionClient
