import Mathlib.Algebra.Group.Int.Defs
import Mathlib.Algebra.GroupWithZero.Nat
import Mathlib.Data.List.Basic

/-!
# Checksums (`crctab.c` and the `calc…Crc` functions of `zmodem_session.cpp`)
-/

namespace PuttyNd.Zmodem

/-- `crctab`. -/
def crctab : List UInt16 :=
  [ 0x0000, 0x1021, 0x2042, 0x3063, 0x4084, 0x50a5, 0x60c6, 0x70e7, 0x8108, 0x9129, 0xa14a, 0xb16b,
    0xc18c, 0xd1ad, 0xe1ce, 0xf1ef, 0x1231, 0x0210, 0x3273, 0x2252, 0x52b5, 0x4294, 0x72f7, 0x62d6,
    0x9339, 0x8318, 0xb37b, 0xa35a, 0xd3bd, 0xc39c, 0xf3ff, 0xe3de, 0x2462, 0x3443, 0x0420, 0x1401,
    0x64e6, 0x74c7, 0x44a4, 0x5485, 0xa56a, 0xb54b, 0x8528, 0x9509, 0xe5ee, 0xf5cf, 0xc5ac, 0xd58d,
    0x3653, 0x2672, 0x1611, 0x0630, 0x76d7, 0x66f6, 0x5695, 0x46b4, 0xb75b, 0xa77a, 0x9719, 0x8738,
    0xf7df, 0xe7fe, 0xd79d, 0xc7bc, 0x48c4, 0x58e5, 0x6886, 0x78a7, 0x0840, 0x1861, 0x2802, 0x3823,
    0xc9cc, 0xd9ed, 0xe98e, 0xf9af, 0x8948, 0x9969, 0xa90a, 0xb92b, 0x5af5, 0x4ad4, 0x7ab7, 0x6a96,
    0x1a71, 0x0a50, 0x3a33, 0x2a12, 0xdbfd, 0xcbdc, 0xfbbf, 0xeb9e, 0x9b79, 0x8b58, 0xbb3b, 0xab1a,
    0x6ca6, 0x7c87, 0x4ce4, 0x5cc5, 0x2c22, 0x3c03, 0x0c60, 0x1c41, 0xedae, 0xfd8f, 0xcdec, 0xddcd,
    0xad2a, 0xbd0b, 0x8d68, 0x9d49, 0x7e97, 0x6eb6, 0x5ed5, 0x4ef4, 0x3e13, 0x2e32, 0x1e51, 0x0e70,
    0xff9f, 0xefbe, 0xdfdd, 0xcffc, 0xbf1b, 0xaf3a, 0x9f59, 0x8f78, 0x9188, 0x81a9, 0xb1ca, 0xa1eb,
    0xd10c, 0xc12d, 0xf14e, 0xe16f, 0x1080, 0x00a1, 0x30c2, 0x20e3, 0x5004, 0x4025, 0x7046, 0x6067,
    0x83b9, 0x9398, 0xa3fb, 0xb3da, 0xc33d, 0xd31c, 0xe37f, 0xf35e, 0x02b1, 0x1290, 0x22f3, 0x32d2,
    0x4235, 0x5214, 0x6277, 0x7256, 0xb5ea, 0xa5cb, 0x95a8, 0x8589, 0xf56e, 0xe54f, 0xd52c, 0xc50d,
    0x34e2, 0x24c3, 0x14a0, 0x0481, 0x7466, 0x6447, 0x5424, 0x4405, 0xa7db, 0xb7fa, 0x8799, 0x97b8,
    0xe75f, 0xf77e, 0xc71d, 0xd73c, 0x26d3, 0x36f2, 0x0691, 0x16b0, 0x6657, 0x7676, 0x4615, 0x5634,
    0xd94c, 0xc96d, 0xf90e, 0xe92f, 0x99c8, 0x89e9, 0xb98a, 0xa9ab, 0x5844, 0x4865, 0x7806, 0x6827,
    0x18c0, 0x08e1, 0x3882, 0x28a3, 0xcb7d, 0xdb5c, 0xeb3f, 0xfb1e, 0x8bf9, 0x9bd8, 0xabbb, 0xbb9a,
    0x4a75, 0x5a54, 0x6a37, 0x7a16, 0x0af1, 0x1ad0, 0x2ab3, 0x3a92, 0xfd2e, 0xed0f, 0xdd6c, 0xcd4d,
    0xbdaa, 0xad8b, 0x9de8, 0x8dc9, 0x7c26, 0x6c07, 0x5c64, 0x4c45, 0x3ca2, 0x2c83, 0x1ce0, 0x0cc1,
    0xef1f, 0xff3e, 0xcf5d, 0xdf7c, 0xaf9b, 0xbfba, 0x8fd9, 0x9ff8, 0x6e17, 0x7e36, 0x4e55, 0x5e74,
    0x2e93, 0x3eb2, 0x0ed1, 0x1ef0 ]

/-- `cr3tab`, for the polynomial 0xedb88320. -/
def cr3tab : List UInt32 :=
  [ 0x00000000, 0x77073096, 0xee0e612c, 0x990951ba, 0x076dc419, 0x706af48f, 0xe963a535, 0x9e6495a3,
    0x0edb8832, 0x79dcb8a4, 0xe0d5e91e, 0x97d2d988, 0x09b64c2b, 0x7eb17cbd, 0xe7b82d07, 0x90bf1d91,
    0x1db71064, 0x6ab020f2, 0xf3b97148, 0x84be41de, 0x1adad47d, 0x6ddde4eb, 0xf4d4b551, 0x83d385c7,
    0x136c9856, 0x646ba8c0, 0xfd62f97a, 0x8a65c9ec, 0x14015c4f, 0x63066cd9, 0xfa0f3d63, 0x8d080df5,
    0x3b6e20c8, 0x4c69105e, 0xd56041e4, 0xa2677172, 0x3c03e4d1, 0x4b04d447, 0xd20d85fd, 0xa50ab56b,
    0x35b5a8fa, 0x42b2986c, 0xdbbbc9d6, 0xacbcf940, 0x32d86ce3, 0x45df5c75, 0xdcd60dcf, 0xabd13d59,
    0x26d930ac, 0x51de003a, 0xc8d75180, 0xbfd06116, 0x21b4f4b5, 0x56b3c423, 0xcfba9599, 0xb8bda50f,
    0x2802b89e, 0x5f058808, 0xc60cd9b2, 0xb10be924, 0x2f6f7c87, 0x58684c11, 0xc1611dab, 0xb6662d3d,
    0x76dc4190, 0x01db7106, 0x98d220bc, 0xefd5102a, 0x71b18589, 0x06b6b51f, 0x9fbfe4a5, 0xe8b8d433,
    0x7807c9a2, 0x0f00f934, 0x9609a88e, 0xe10e9818, 0x7f6a0dbb, 0x086d3d2d, 0x91646c97, 0xe6635c01,
    0x6b6b51f4, 0x1c6c6162, 0x856530d8, 0xf262004e, 0x6c0695ed, 0x1b01a57b, 0x8208f4c1, 0xf50fc457,
    0x65b0d9c6, 0x12b7e950, 0x8bbeb8ea, 0xfcb9887c, 0x62dd1ddf, 0x15da2d49, 0x8cd37cf3, 0xfbd44c65,
    0x4db26158, 0x3ab551ce, 0xa3bc0074, 0xd4bb30e2, 0x4adfa541, 0x3dd895d7, 0xa4d1c46d, 0xd3d6f4fb,
    0x4369e96a, 0x346ed9fc, 0xad678846, 0xda60b8d0, 0x44042d73, 0x33031de5, 0xaa0a4c5f, 0xdd0d7cc9,
    0x5005713c, 0x270241aa, 0xbe0b1010, 0xc90c2086, 0x5768b525, 0x206f85b3, 0xb966d409, 0xce61e49f,
    0x5edef90e, 0x29d9c998, 0xb0d09822, 0xc7d7a8b4, 0x59b33d17, 0x2eb40d81, 0xb7bd5c3b, 0xc0ba6cad,
    0xedb88320, 0x9abfb3b6, 0x03b6e20c, 0x74b1d29a, 0xead54739, 0x9dd277af, 0x04db2615, 0x73dc1683,
    0xe3630b12, 0x94643b84, 0x0d6d6a3e, 0x7a6a5aa8, 0xe40ecf0b, 0x9309ff9d, 0x0a00ae27, 0x7d079eb1,
    0xf00f9344, 0x8708a3d2, 0x1e01f268, 0x6906c2fe, 0xf762575d, 0x806567cb, 0x196c3671, 0x6e6b06e7,
    0xfed41b76, 0x89d32be0, 0x10da7a5a, 0x67dd4acc, 0xf9b9df6f, 0x8ebeeff9, 0x17b7be43, 0x60b08ed5,
    0xd6d6a3e8, 0xa1d1937e, 0x38d8c2c4, 0x4fdff252, 0xd1bb67f1, 0xa6bc5767, 0x3fb506dd, 0x48b2364b,
    0xd80d2bda, 0xaf0a1b4c, 0x36034af6, 0x41047a60, 0xdf60efc3, 0xa867df55, 0x316e8eef, 0x4669be79,
    0xcb61b38c, 0xbc66831a, 0x256fd2a0, 0x5268e236, 0xcc0c7795, 0xbb0b4703, 0x220216b9, 0x5505262f,
    0xc5ba3bbe, 0xb2bd0b28, 0x2bb45a92, 0x5cb36a04, 0xc2d7ffa7, 0xb5d0cf31, 0x2cd99e8b, 0x5bdeae1d,
    0x9b64c2b0, 0xec63f226, 0x756aa39c, 0x026d930a, 0x9c0906a9, 0xeb0e363f, 0x72076785, 0x05005713,
    0x95bf4a82, 0xe2b87a14, 0x7bb12bae, 0x0cb61b38, 0x92d28e9b, 0xe5d5be0d, 0x7cdcefb7, 0x0bdbdf21,
    0x86d3d2d4, 0xf1d4e242, 0x68ddb3f8, 0x1fda836e, 0x81be16cd, 0xf6b9265b, 0x6fb077e1, 0x18b74777,
    0x88085ae6, 0xff0f6a70, 0x66063bca, 0x11010b5c, 0x8f659eff, 0xf862ae69, 0x616bffd3, 0x166ccf45,
    0xa00ae278, 0xd70dd2ee, 0x4e048354, 0x3903b3c2, 0xa7672661, 0xd06016f7, 0x4969474d, 0x3e6e77db,
    0xaed16a4a, 0xd9d65adc, 0x40df0b66, 0x37d83bf0, 0xa9bcae53, 0xdebb9ec5, 0x47b2cf7f, 0x30b5ffe9,
    0xbdbdf21c, 0xcabac28a, 0x53b39330, 0x24b4a3a6, 0xbad03605, 0xcdd70693, 0x54de5729, 0x23d967bf,
    0xb3667a2e, 0xc4614ab8, 0x5d681b02, 0x2a6f2b94, 0xb40bbe37, 0xc30c8ea1, 0x5a05df1b, 0x2d02ef8d ]

/-- `updcrc`. -/
def updcrc (cp : UInt8) (crc : UInt16) : UInt16 :=
  crctab.getD (crc >>> 8 &&& 255).toNat 0 ^^^ crc <<< 8 ^^^ cp.toUInt16

/-- `UPDC32`. -/
def updc32 (b : UInt8) (c : UInt32) : UInt32 :=
  cr3tab.getD ((c ^^^ b.toUInt32) &&& 0xff).toNat 0 ^^^ (c >>> 8 &&& 0x00FFFFFF)

/-- The register that `UPDC32` leaves after the bytes `bs`. -/
def crcReg (c : UInt32) (bs : List UInt8) : UInt32 := bs.foldl (fun c b => updc32 b c) c

@[simp] theorem crcReg_nil (c : UInt32) : crcReg c [] = c := rfl

@[simp] theorem crcReg_cons (c : UInt32) (b : UInt8) (bs : List UInt8) :
    crcReg c (b :: bs) = crcReg (updc32 b c) bs := rfl

@[simp] theorem crcReg_append (c : UInt32) (xs ys : List UInt8) :
    crcReg c (xs ++ ys) = crcReg (crcReg c xs) ys := by simp [crcReg]

/-- `calcBufferCrc32`. -/
def calcBufferCrc32 (buf : List UInt8) : UInt32 := ~~~ crcReg 0xFFFFFFFF buf

end PuttyNd.Zmodem

/-!
## The transferred file (`zmodem_file.cpp`)

`file_` is a `std::fstream`. A stream that is read has a position of its own and is good until a read
hits the end of the file; after that a read gets nothing and `seekg` does nothing. What has been
written to a stream is the list of its bytes. The prompt and the progress line, which are only shown
to the user, are left out.
-/

namespace PuttyNd.Zmodem

/-- `std::fstream`. -/
structure FStream where
  isOpen : Bool
  good : Bool
  content : List UInt8
  pos : Nat
deriving DecidableEq, Repr, Inhabited

namespace FStream

/-- `read`; the bytes that `gcount` counts. -/
def read (f : FStream) (size : Nat) : FStream × List UInt8 :=
  if f.good then
    let got := (f.content.drop f.pos).take size
    ({ f with pos := f.pos + got.length, good := decide (got.length = size) }, got)
  else (f, [])

/-- `seekg`. -/
def seekg (f : FStream) (pos : Nat) : FStream := if f.good then { f with pos := pos } else f

/-- `write`. -/
def write (f : FStream) (buf : List UInt8) : FStream :=
  if f.good then { f with content := f.content ++ buf } else f

end FStream

/-- `ZmodemFile`. -/
structure ZmodemFile where
  file : FStream
  fileSize : UInt32
  pos : UInt32
deriving DecidableEq, Repr, Inhabited

/-- The number that `sscanf` reads for `%lu`. -/
def scanUlong (s : List UInt8) : UInt32 :=
  let digits := (s.dropWhile (· = 32)).takeWhile fun c => 48 ≤ c ∧ c ≤ 57
  digits.foldl (fun n c => n * 10 + (c - 48).toUInt32) 0

namespace ZmodemFile

/-- The constructor for a file that is received; `created` says if the file could be opened. -/
def ofInfo (created : Bool) (fileinfo : List UInt8) : ZmodemFile :=
  { file := { isOpen := created, good := created, content := [], pos := 0 }
    fileSize := scanUlong fileinfo
    pos := 0 }

/-- The constructor for a file that is sent; `readable` says if the file could be opened. -/
def ofPath (readable : Bool) (content : List UInt8) (filesize : UInt32) : ZmodemFile :=
  { file := { isOpen := readable, good := readable, content := content, pos := 0 }
    fileSize := filesize
    pos := 0 }

/-- `write`. -/
def write (f : ZmodemFile) (buf : List UInt8) : Option ZmodemFile :=
  if ¬ f.file.isOpen ∨ UInt32.ofNat buf.length + f.pos > f.fileSize then none
  else some { f with file := f.file.write buf, pos := f.pos + UInt32.ofNat buf.length }

/-- `read`. -/
def read (f : ZmodemFile) (size : Nat) : ZmodemFile × List UInt8 :=
  if ¬ f.file.isOpen then (f, [])
  else
    let (file, got) := f.file.read size
    ({ f with file := file, pos := f.pos + UInt32.ofNat got.length }, got)

/-- `setPos`. -/
def setPos (f : ZmodemFile) (pos : UInt32) : ZmodemFile :=
  if pos > f.fileSize then f
  else { f with file := f.file.seekg pos.toNat, pos := pos }

/-- `isGood`. -/
def isGood (f : ZmodemFile) : Bool := f.file.good

end ZmodemFile

end PuttyNd.Zmodem

/-!
## Frames (`zmodem.h` and the coding functions of `zmodem_session.cpp`)

A header is sent as hexadecimal digits or, with a 32-bit checksum, as escaped bytes. Data follow a
header in subpackets: the escaped data, a `ZDLE` sequence that says how the frame goes on, and an
escaped checksum.
-/

namespace PuttyNd.Zmodem

/-! ## Constants -/

def ZPAD : UInt8 := 42
def ZDLE : UInt8 := 0o30
def ZBIN : UInt8 := 65
def ZHEX : UInt8 := 66
def ZBIN32 : UInt8 := 67
def XON : UInt8 := 0x11

def ZRQINIT : UInt8 := 0
def ZRINIT : UInt8 := 1
def ZACK : UInt8 := 3
def ZFILE : UInt8 := 4
def ZNAK : UInt8 := 6
def ZABORT : UInt8 := 7
def ZFIN : UInt8 := 8
def ZRPOS : UInt8 := 9
def ZDATA : UInt8 := 10
def ZEOF : UInt8 := 11
def ZCOMPL : UInt8 := 15
def ZCAN : UInt8 := 16

def ZCRCE : UInt8 := 104
def ZCRCG : UInt8 := 105
def ZCRCQ : UInt8 := 106
def ZCRCW : UInt8 := 107

/-- `HEX_PREFIX`. -/
def HEX_PREFIX : List UInt8 := [ZPAD, ZPAD, ZDLE, ZHEX]

/-- `BIN32_PREFIX`. -/
def BIN32_PREFIX : List UInt8 := [ZPAD, ZPAD, ZDLE, ZBIN32]

/-! ## Headers -/

/-- The fields `type` and `flag` of `frame_t` and `frame32_t`. The checksum is computed and compared
when a frame is sent and received, and not kept. -/
structure Frame where
  type : UInt8
  flag0 : UInt8
  flag1 : UInt8
  flag2 : UInt8
  flag3 : UInt8
deriving DecidableEq, Repr, Inhabited

namespace Frame

/-- The bytes of a frame before its checksum. -/
def bytes (f : Frame) : List UInt8 := [f.type, f.flag0, f.flag1, f.flag2, f.flag3]

/-- The bytes that go into the checksum of a frame. -/
def summed (f : Frame) : List UInt8 := [f.type &&& 0x7f, f.flag0, f.flag1, f.flag2, f.flag3]

end Frame

/-- `calcFrameCrc`. -/
def calcFrameCrc (f : Frame) : UInt16 :=
  let crc := f.summed.foldl (fun crc b => updcrc b crc) 0
  updcrc 0 (updcrc 0 crc)

/-- `calcFrameCrc32`. -/
def calcFrameCrc32 (f : Frame) : UInt32 := ~~~ crcReg 0xFFFFFFFF f.summed

/-- The header that `sendFrameHeader` and `sendBin32FrameHeader` send: the position is stored least
significant byte first (`ZP0` to `ZP3`). -/
def posFrame (type : UInt8) (pos : UInt32) : Frame :=
  { type := type, flag0 := pos.toUInt8, flag1 := (pos >>> 8).toUInt8,
    flag2 := (pos >>> 16).toUInt8, flag3 := (pos >>> 24).toUInt8 }

/-- `getPos`. -/
def getPos (f : Frame) : UInt32 :=
  let rxpos := f.flag3.toUInt32
  let rxpos := (rxpos <<< 8) + f.flag2.toUInt32
  let rxpos := (rxpos <<< 8) + f.flag1.toUInt32
  (rxpos <<< 8) + f.flag0.toUInt32

/-! ## Hexadecimal digits -/

/-- `HEX_ARRAY`. -/
def HEX_ARRAY : List UInt8 :=
  [48, 49, 50, 51, 52, 53, 54, 55, 56, 57, 97, 98, 99, 100, 101, 102]

/-- `encHex`. -/
def encHex (c : UInt8) : List UInt8 :=
  [HEX_ARRAY.getD ((c &&& 0xF0) >>> 4).toNat 0, HEX_ARRAY.getD (c &&& 0x0F).toNat 0]

/-- `hex2int`. -/
def hex2int (hex : UInt8) : UInt8 :=
  if 48 ≤ hex ∧ hex ≤ 57 then hex - 48
  else if 97 ≤ hex ∧ hex ≤ 102 then hex - 97 + 10
  else 0

/-- `decHex` of the two digits at `i`. -/
def decHex (h : List UInt8) (i : Nat) : UInt8 :=
  hex2int (h.getD i 0) <<< 4 ||| hex2int (h.getD (i + 1) 0)

/-- `sizeof(hex_t)`. -/
def hexSize : Nat := 14

/-- `convPlain2Hex`, with the checksum `crc`. -/
def convPlain2Hex (f : Frame) (crc : UInt16) : List UInt8 :=
  f.bytes.flatMap encHex ++ encHex (crc >>> 8).toUInt8 ++ encHex (crc &&& 0x00FF).toUInt8

/-- `convHex2Plain`: the frame and its checksum. -/
def convHex2Plain (h : List UInt8) : Frame × UInt16 :=
  ({ type := decHex h 0, flag0 := decHex h 2, flag1 := decHex h 4, flag2 := decHex h 6,
     flag3 := decHex h 8 },
   (decHex h 10).toUInt16 <<< 8 ||| (decHex h 12).toUInt16)

/-- `sendFrame`: the bytes that are sent. -/
def sendFrame (f : Frame) : List UInt8 :=
  HEX_PREFIX ++ convPlain2Hex f (calcFrameCrc f) ++ [0x0D, 0o212] ++
    if f.type ≠ ZFIN ∧ f.type ≠ ZACK then [XON] else []

/-! ## Escaped bytes -/

/-- `zsendline_tab`. Every case of the switch that fills it stores 1. -/
def zsendlineTab (i : UInt8) : Nat := if i &&& 0o140 ≠ 0 then 0 else 1

/-- The loop of `convert2zline`, with the free space of the destination and `lastsent`. -/
def convert2zlineLoop : Nat → UInt8 → List UInt8 → List UInt8
  | _, _, [] => []
  | space, lastsent, c :: src =>
    if space = 0 then []
    else if zsendlineTab c = 0 then c :: convert2zlineLoop (space - 1) c src
    else if zsendlineTab c = 1 then
      ZDLE :: (c ^^^ 0o100) :: convert2zlineLoop (space - 2) (c ^^^ 0o100) src
    else if lastsent &&& 0o177 ≠ 64 then c :: convert2zlineLoop (space - 1) c src
    else ZDLE :: (c ^^^ 0o100) :: convert2zlineLoop (space - 2) (c ^^^ 0o100) src

/-- `convert2zline`. -/
def convert2zline (destSize : Nat) (src : List UInt8) : List UInt8 :=
  convert2zlineLoop destSize 0 src

/-- An `unsigned long` in memory. -/
def le32 (x : UInt32) : List UInt8 :=
  [x.toUInt8, (x >>> 8).toUInt8, (x >>> 16).toUInt8, (x >>> 24).toUInt8]

/-- The `unsigned long` that is stored in the first four bytes. -/
def ofLe32 (bs : List UInt8) : UInt32 :=
  (bs.getD 0 0).toUInt32 ||| (bs.getD 1 0).toUInt32 <<< 8 ||| (bs.getD 2 0).toUInt32 <<< 16 |||
    (bs.getD 3 0).toUInt32 <<< 24

/-- `sendBin32Frame`: the bytes that are sent. -/
def sendBin32Frame (f : Frame) : List UInt8 :=
  BIN32_PREFIX ++ convert2zline (256 - 4) (f.bytes ++ le32 (calcFrameCrc32 f))

/-- `send_zsda32`: the bytes that are sent for the data `buf`. -/
def sendZsda32 (buf : List UInt8) (frameend : UInt8) : List UInt8 :=
  let data := convert2zline (2048 + 128) buf ++ [ZDLE, frameend]
  let crc := calcBufferCrc32 (buf ++ [frameend])
  data ++ convert2zline (2048 + 128 - data.length) (le32 crc) ++
    if frameend = ZCRCW then [XON] else []

/-- The loop of `decodeEscapeStruct` for the `n` bytes that are missing: the bytes of the structure
and the length of their escaped form, if it is complete. -/
def decodeEscape : Nat → List UInt8 → Option (List UInt8 × Nat)
  | 0, _ => some ([], 0)
  | _ + 1, [] => none
  | n + 1, b :: bs =>
    if b = ZDLE then
      match bs with
      | [] => none
      | x :: bs => (decodeEscape n bs).map fun r => ((x ^^^ 0x40) :: r.1, r.2 + 2)
    else (decodeEscape n bs).map fun r => (b :: r.1, r.2 + 1)

/-- `decodeCrc32` at the start of `bs`: the checksum and `consume_len`. -/
def decodeCrc32 (bs : List UInt8) : Option (UInt32 × Nat) :=
  (decodeEscape 4 bs).map fun r => (ofLe32 r.1, r.2)

end PuttyNd.Zmodem
