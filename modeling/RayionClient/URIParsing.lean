/-
  URIParsing.cpp — the class `URIInfo`, which keeps the endpoint found in an
  RTSP URI as text and as numbers.

  Functions that write into the two character buffers return an `Exec`: the
  events they perform, and their result unless they leave the buffers.  The
  loops are recursions over the number of rounds left.  Positions in a string
  are naturals (a Win32 string is shorter than 2 GB, so they fit an `int`).

  What the code leaves indeterminate is a parameter: the members that the
  constructor does not set, and, for the pass of the loop of `ParseURI` at
  position `i`, the local `iplong i` before `inet_pton` is called.
-/
import RayionClient.Base.Buf
import RayionClient.Inet

namespace RayionClient

open Base

/-- What `ParseURI` writes to `cout`. -/
inductive Msg where
  | invalidInput
  | nonEvenPort
  deriving DecidableEq

/-- The texts, as the source has them. -/
def Msg.text : Msg → String
  | invalidInput => "Invalid Input"
  | nonEvenPort => "Non-even port number."

/-- The events of a run of `ParseURI`: output, the test `substr[i] == ':'` succeeding, writes
    to the buffers, and library calls (with the contents of both buffers at the call). -/
inductive Ev where
  | cout (m : Msg)
  | colon (i : ℕ)
  | dotIPAddr (j : ℕ)
  | strPort (j : ℕ)
  | inetPton (dotIPAddr : Buf 18) (strPort : Buf 6)
  | atoi (dotIPAddr : Buf 18) (strPort : Buf 6)
  deriving DecidableEq

/-- `URIInfo`, with its two arrays. -/
structure URIInfo where
  URI : CStr
  dotIPAddr : Buf 18
  IPAddr : Fin 4 → ℤ
  strPort : Buf 6
  intPort : ℤ

namespace URIInfo

/-- The constructor: both buffers are zero-filled, the other members are left as they are. -/
def new (URI : CStr) (IPAddr : Fin 4 → ℤ) (intPort : ℤ) : URIInfo where
  URI := URI
  dotIPAddr := .zero 18
  IPAddr := IPAddr
  strPort := .zero 6
  intPort := intPort

/-- `GetDotIPAddr`. -/
def getDotIPAddr (info : URIInfo) : List UInt8 := info.dotIPAddr.text

/-- `GetIPAddr`. -/
def getIPAddr (info : URIInfo) : Fin 4 → ℤ := info.IPAddr

/-- `GetstrPort`. -/
def getstrPort (info : URIInfo) : List UInt8 := info.strPort.text

/-- `GetintPort`. -/
def getintPort (info : URIInfo) : ℤ := info.intPort

end URIInfo

/-- `char *head`. -/
def rtspHead : List UInt8 := ascii "rtsp://"

/-! ## `ParseURI` -/

section
variable (inetPton : InetPton)

/-- `for (j = 0; j < i - 7; j++) dotIPAddr[j] = substr[7 + j]`, with `n` rounds left. -/
def copyHost (substr : List UInt8) : ℕ → ℕ → Buf 18 → Exec Ev (Buf 18)
  | 0, _, dotIPAddr => pure dotIPAddr
  | n + 1, j, dotIPAddr => do
    let dotIPAddr ← dotIPAddr.write .dotIPAddr j (charAt substr (7 + j))
    copyHost substr n (j + 1) dotIPAddr

/-- `for (j = i + 1; j < length; j++)`: copy to `strPort[j - i - 1]` up to a `/`. -/
def copyPort (substr : List UInt8) (i : ℕ) : ℕ → ℕ → Buf 6 → Exec Ev (Buf 6)
  | 0, _, strPort => pure strPort
  | n + 1, j, strPort =>
    if charAt substr j = slash then pure strPort
    else do
      let strPort ← strPort.write .strPort (j - i - 1) (charAt substr j)
      copyPort substr i n (j + 1) strPort

/-- `inet_pton(AF_INET, dotIPAddr, &iplong)`. -/
def callInetPton (dotIPAddr : Buf 18) (strPort : Buf 6) (iplong : UInt32) : Exec Ev UInt32 :=
  Exec.tellGet (.inetPton dotIPAddr strPort)
    (if dotIPAddr.Terminated then some (addrWord inetPton dotIPAddr.text iplong) else none)

/-- `atoi(strPort)`. -/
def callAtoi (dotIPAddr : Buf 18) (strPort : Buf 6) : Exec Ev ℤ :=
  Exec.tellGet (.atoi dotIPAddr strPort)
    (if strPort.Terminated then some (Base.atoi strPort.text) else none)

/-- The body of `if (substr[i] == ':')`, up to the test of the port. -/
def colonBody (substr : List UInt8) (length i : ℕ) (iplong : UInt32) (info : URIInfo) :
    Exec Ev URIInfo := do
  Exec.tell (.colon i)
  let dotIPAddr ← copyHost substr (i - 7) 0 info.dotIPAddr
  let iplong ← callInetPton inetPton dotIPAddr info.strPort iplong
  let strPort ← copyPort substr i (length - (i + 1)) (i + 1) info.strPort
  let intPort ← callAtoi dotIPAddr strPort
  return { info with
    dotIPAddr := dotIPAddr
    IPAddr := fun j => (wordByte iplong j).toNat
    strPort := strPort
    intPort := intPort }

/-- `for (i = 7; i < length; i++)`, with `n` rounds left; returns `flag` at the end. -/
def scan (substr : List UInt8) (length : ℕ) (flag : ℤ) (iplong : ℕ → UInt32) :
    ℕ → ℕ → URIInfo → Exec Ev (ℤ × URIInfo)
  | 0, _, info => pure (flag, info)
  | n + 1, i, info =>
    if charAt substr i = colon then do
      let info ← colonBody inetPton substr length i (iplong i) info
      if info.intPort.tmod 2 ≠ 0 then do
        Exec.tell (.cout .nonEvenPort)
        return (-1, info)
      else scan substr length flag iplong n (i + 1) info
    else scan substr length flag iplong n (i + 1) info

/-- `ParseURI`. -/
def parseURI (iplong : ℕ → UInt32) (info : URIInfo) : Exec Ev (ℤ × URIInfo) :=
  let flag := -1
  match strstr info.URI.bytes rtspHead with
  | none => do
    Exec.tell (.cout .invalidInput)
    return (-1, info)
  | some substr =>
    let length := substr.length
    scan inetPton substr length flag iplong (length - 7) 7 info

/-- `initURIInfo`. -/
def initURIInfo (iplong : ℕ → UInt32) (inputURI : CStr) (info : URIInfo) :
    Exec Ev (ℤ × URIInfo) :=
  parseURI inetPton iplong { info with URI := inputURI }

end

/-! ## What a log says -/

/-- Writes stay inside the buffers, and both are terminated when a library reads one. -/
def Ev.InBounds : Ev → Prop
  | dotIPAddr j => j < 18
  | strPort j => j < 6
  | inetPton d p | atoi d p => d.Terminated ∧ p.Terminated
  | cout _ | colon _ => True

/-- The copied texts leave room for a terminator: at most 17 and 5 bytes. -/
def Ev.Fits : Ev → Prop
  | dotIPAddr j => j < 17
  | strPort j => j < 5
  | _ => True

/-- The positions of the colons visited. -/
def colons (log : List Ev) : List ℕ := log.filterMap fun
  | .colon i => some i
  | _ => none

/-- The messages written. -/
def couts (log : List Ev) : List Msg := log.filterMap fun
  | .cout m => some m
  | _ => none

@[simp] theorem colons_append (l l' : List Ev) : colons (l ++ l') = colons l ++ colons l' :=
  List.filterMap_append

@[simp] theorem couts_append (l l' : List Ev) : couts (l ++ l') = couts l ++ couts l' :=
  List.filterMap_append

theorem mem_couts {log : List Ev} {m : Msg} : m ∈ couts log ↔ .cout m ∈ log := by
  rw [couts, List.mem_filterMap]
  constructor
  · rintro ⟨e, he, hm⟩
    cases e <;> cases hm
    exact he
  · exact fun h => ⟨_, h, rfl⟩

end RayionClient
