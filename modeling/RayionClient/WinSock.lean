/-
  WinSock.cpp — the class `Socket`, which opens the RTSP connection.

  The members are pointers to the two buffers of a `URIInfo`, so they stand for
  the texts found there when `connectServer` is called.  `connect` belongs to
  the operating system and is a parameter.
-/
import RayionClient.Inet

namespace RayionClient

open Base

/-- `sockaddr_in`: port and address are in network byte order. -/
structure SockaddrIn where
  sin_family : UInt16
  sin_port : UInt16
  sin_addr : UInt32
  deriving DecidableEq

/-- `AF_INET`. -/
def afInet : UInt16 := 2

/-- The byte swap of a little-endian host. -/
def htons (x : UInt16) : UInt16 := x <<< 8 ||| x >>> 8

/-- `ntohs`, on a little-endian host. -/
def ntohs (x : UInt16) : UInt16 := x <<< 8 ||| x >>> 8

theorem htons_toNat (x : UInt16) :
    (htons x).toNat = x.toNat % 2 ^ 8 * 2 ^ 8 + x.toNat / 2 ^ 8 := by
  have hx := x.toNat_lt
  have hdiv : x.toNat / 2 ^ 8 < 2 ^ 8 := by omega
  have hmod : x.toNat * 2 ^ 8 % 2 ^ 16 = 2 ^ 8 * (x.toNat % 2 ^ 8) := by omega
  rw [htons, UInt16.toNat_or, UInt16.toNat_shiftLeft, UInt16.toNat_shiftRight]
  change x.toNat <<< 8 % 2 ^ 16 ||| x.toNat >>> 8 = _
  rw [Nat.shiftLeft_eq, Nat.shiftRight_eq_div_pow, hmod, Nat.lor_comm, or_mul_pow hdiv]
  omega

theorem ntohs_htons (x : UInt16) : ntohs (htons x) = x := by
  have hx := x.toNat_lt
  rw [← UInt16.toNat_inj]
  change (htons (htons x)).toNat = _
  rw [htons_toNat, htons_toNat]
  omega

/-- `Socket`. -/
structure Socket where
  RTSPSocket : ℕ
  IPAddr : List UInt8
  Port : List UInt8

namespace Socket

/-- `initWinsock`. -/
def initWinsock (sk : Socket) (dotIPAddr RTSPPort : List UInt8) : ℤ × Socket :=
  (0, { sk with IPAddr := dotIPAddr, Port := RTSPPort })

/-- The address that `connectServer` fills in; `address` is what the local variable held before
    `inet_pton`. -/
def serverAddr (inetPton : InetPton) (address : UInt32) (sk : Socket) : SockaddrIn where
  sin_family := afInet
  sin_addr := addrWord inetPton sk.IPAddr address
  sin_port := htons (UInt16.ofInt (atoi sk.Port))

/-- `connectServer`. -/
def connectServer (inetPton : InetPton) (connect : ℕ → SockaddrIn → ℤ) (address : UInt32)
    (sk : Socket) : ℤ :=
  connect sk.RTSPSocket (sk.serverAddr inetPton address)

end Socket

end RayionClient
