import PuttyNd.Lib.Memory
import PuttyNd.Lib.Numerals
import PuttyNd.Storage.TmplStore

/-!
# Host keys in the registry (`putty/windows/winstore.c`)

`verify_host_key` of the registry, with the conversion of RSA keys that are stored in the old format. A buffer is
the list of its characters, and what is in it before anything is written to it is a parameter. The values of the
key `SshHostKeys` are a map.
-/

namespace PuttyNd.Storage

open Memory Numerals

abbrev HostKeyValues := Text → Option RegValue

/-! ## Buffers -/

/-- A `char` that a pointer into `buf` points to -/
def charAt (buf : Text) (i : ℤ) : Except Fault Char :=
  if 0 ≤ i ∧ i < buf.length then .ok (buf.getD i.toNat '\x00') else .error .overrun

def setChar (buf : Text) (i : ℕ) (c : Char) : Except Fault Text :=
  if i < buf.length then .ok (buf.set i c) else .error .overrun

/-- The string that a buffer starts with -/
def stringIn (buf : Text) : Text := buf.takeWhile (· ≠ '\x00')

/-- `strcspn` of the string at `q`, with one character to stop at -/
def strcspnAt (buf : Text) (q : ℕ) (c : Char) : Except Fault ℕ :=
  let n := ((buf.drop q).takeWhile fun a => a ≠ c ∧ a ≠ '\x00').length
  if q + n < buf.length then .ok n else .error .overrun

/-- Whether `strcmp` finds a buffer and a string equal -/
def strcmp : Text → Text → Except Fault Bool
  | [], _ => .error .overrun
  | a :: _, [] => .ok (a == '\x00')
  | a :: buf, c :: s => if a = c then strcmp buf s else .ok false

namespace WinRegStore

/-! ## The old format -/

/-- `n ^ 3` -/
def xor3 (n : ℤ) : ℤ := 4 * (n / 4) + (3 - n % 4)

/-- The loop that trims `ndigits`. The digit is read first. -/
def trimZeros (oldstyle : Text) (q : ℕ) : ℕ → Except Fault ℕ
  | 0 => do
    let _ ← charAt oldstyle (q + xor3 (-1))
    .ok 0
  | n + 1 => do
    let c ← charAt oldstyle (q + xor3 n)
    if c = '0' ∧ 1 < n + 1 then trimZeros oldstyle q n else .ok (n + 1)

/-- The loop that moves the digits, with `left` of its rounds left: `j` is `ndigits - left`. -/
def moveDigits (oldstyle : Text) (q p ndigits : ℕ) : ℕ → Text → Except Fault Text
  | 0, otherstr => .ok otherstr
  | left + 1, otherstr => do
    let j := ndigits - (left + 1)
    let c ← charAt oldstyle (q + xor3 j)
    let otherstr ← setChar otherstr (p + (ndigits - 1 - j)) c
    moveDigits oldstyle q p ndigits left otherstr

/-- What the rounds of the conversion change: `otherstr` and the pointers into it and into `oldstyle` -/
structure Conversion where
  otherstr : Text
  p : ℕ
  q : ℕ

/-- One number is converted. -/
def convertNumber (oldstyle : Text) (s : Conversion) : Except Fault Conversion := do
  let otherstr ← setChar s.otherstr s.p '0'
  let otherstr ← setChar otherstr (s.p + 1) 'x'
  let p := s.p + 2
  let ndigits ← strcspnAt oldstyle s.q '/'
  let nwords := ndigits / 4
  let ndigits ← trimZeros oldstyle s.q ndigits
  let otherstr ← moveDigits oldstyle s.q p ndigits ndigits otherstr
  let p := p + ndigits
  let q := s.q + nwords * 4
  let c ← charAt oldstyle q
  if c ≠ '\x00' then
    let otherstr ← setChar otherstr p ','
    let otherstr ← setChar otherstr (p + 1) '\x00'
    .ok ⟨otherstr, p + 1, q + 1⟩
  else
    let otherstr ← setChar otherstr p '\x00'
    .ok ⟨otherstr, p, q⟩

/-- What is in `otherstr` afterwards -/
def convert (oldstyle otherstr : Text) : Except Fault Text := do
  let s ← convertNumber oldstyle ⟨otherstr, 0, 0⟩
  let s ← convertNumber oldstyle s
  .ok s.otherstr

/-! ## Queries -/

/-- `ret`, and `type` in case of success -/
inductive Ret where
  | success (isSz : Bool)
  | moreData
  | otherError
deriving DecidableEq, Repr

/-- The data of a value -/
def valueData : RegValue → Text
  | .sz s => s ++ ['\x00']
  | .dword value => (List.range 4).map fun i => Char.ofNat (value.toBitVec.toNat >>> (8 * i) % 256)
  | .other data => data.map fun b => Char.ofNat b.toNat

/-- `RegQueryValueEx` with room for `readlen` bytes, and what is in the buffer then -/
def regQueryValueEx (values : HostKeyValues) (name : Text) (readlen : ℕ) (buf : Text) : Ret × Text :=
  match values name with
  | none => (.otherError, buf)
  | some value =>
    if value.size ≤ readlen then
      (.success (match value with | .sz _ => true | _ => false), valueData value ++ buf.drop value.size)
    else (.moreData, buf)

/-- `RegSetValueEx` -/
def regSetValueEx (values : HostKeyValues) (name : Text) (value : RegValue) : HostKeyValues :=
  fun a => if a = name then some value else values a

/-- The name of the value for a host -/
def regname (hostname : Text) (port : Int32) (keytype : Text) : Text :=
  keytype ++ '@' :: (decimal port.toInt ++ ':' :: mungestr hostname)

/-- `hostkey_regname`, with a buffer of the size that its callers allocate -/
def hostkeyRegname (hostname : Text) (port : Int32) (keytype : Text) : Except Fault Text :=
  if (regname hostname port keytype).length + 1 ≤ 3 * (hostname.length + keytype.length) + 15 then
    .ok (regname hostname port keytype)
  else .error .overrun

/-- The part of `verify_host_key` for a key that does not exist, with `ret`, what is in `otherstr`, and the
values after it -/
def verifyOldstyle (values : HostKeyValues) (regname key otherstr oldstyle : Text) :
    Except Fault (Ret × Text × HostKeyValues) := do
  let justhost := regname.drop (1 + strcspn regname ':')
  match regQueryValueEx values justhost (1 + key.length) oldstyle with
  | (.success true, oldstyle) =>
    let otherstr ← convert oldstyle otherstr
    if ← strcmp otherstr key then
      .ok (.success true, otherstr, regSetValueEx values regname (.sz (stringIn otherstr)))
    else .ok (.success true, otherstr, values)
  | (ret, _) => .ok (ret, otherstr, values)

/-- What `verify_host_key` allocates: `otherstr`, of the size of the key with its NUL, and `oldstyle`, with a
safety margin -/
structure Allocated (key : Text) where
  otherstr : Text
  oldstyle : Text
  otherstrSize : otherstr.length = 1 + key.length
  oldstyleSize : oldstyle.length = 1 + key.length + 10

/-- The end of `verify_host_key` -/
def compareKey (key : Text) (ret : Ret) (otherstr : Text) (values : HostKeyValues) :
    Except Fault (ℕ × Option HostKeyValues) := do
  let same ← strcmp otherstr key
  match ret with
  | .moreData => .ok (2, some values)
  | .success true => .ok (if same then 0 else 2, some values)
  | _ => .ok (1, some values)

/-- `WinRegStore::verify_host_key`, with the values after it; there are none if `SshHostKeys` does not exist. -/
def verifyHostKey (store : Option HostKeyValues) (hostname : Text) (port : Int32) (keytype key : Text)
    (mem : Allocated key) : Except Fault (ℕ × Option HostKeyValues) := do
  let regname ← hostkeyRegname hostname port keytype
  match store with
  | none => .ok (1, none)
  | some values =>
    let (ret, otherstr) := regQueryValueEx values regname (1 + key.length) mem.otherstr
    if ret = .otherError ∧ keytype = "rsa".toList then
      let (ret, otherstr, values) ← verifyOldstyle values regname key otherstr mem.oldstyle
      compareKey key ret otherstr values
    else compareKey key ret otherstr values

/-! ## What the formats mean -/

/-- A number in the old format: its words from the least significant one on, each with four digits -/
def oldBignum (words : List (Fin (16 ^ 4))) : Text := words.flatMap fun w => numeral (digitOf 16 w.val) 4

def bignumValue (words : List (Fin (16 ^ 4))) : ℕ := Nat.ofDigits (16 ^ 4) (words.map Fin.val)

/-- An RSA key in the old format -/
def oldFormat (exponent modulus : List (Fin (16 ^ 4))) : Text := oldBignum exponent ++ '/' :: oldBignum modulus

/-- An RSA key in the new format -/
def newFormat (exponent modulus : ℕ) : Text :=
  '0' :: 'x' :: (Nat.toDigits 16 exponent ++ ',' :: '0' :: 'x' :: Nat.toDigits 16 modulus)

/-- The stored values are those of `verify_host_key`, and an old key that is the key is found and rewritten. -/
def VerifiesSafely (store : Option HostKeyValues) (hostname : Text) (port : Int32) (keytype key : Text)
    (mem : Allocated key) : Prop :=
  ∃ result store', verifyHostKey store hostname port keytype key mem = .ok (result, store') ∧
    ∀ values exponent modulus, store = some values → keytype = "rsa".toList → exponent ≠ [] → modulus ≠ [] →
      values (regname hostname port keytype) = none →
      values (mungestr hostname) = some (.sz (oldFormat exponent modulus)) →
      if key = newFormat (bignumValue exponent) (bignumValue modulus) then
        result = 0 ∧ store' = some (regSetValueEx values (regname hostname port keytype) (.sz key))
      else store' = some values

/-! ## When the buffers suffice -/

/-- There is no key in the new format, and this old key is looked at. -/
def ConsultsOld (store : Option HostKeyValues) (hostname : Text) (port : Int32) (keytype old : Text) : Prop :=
  ∃ values, store = some values ∧ keytype = "rsa".toList ∧ values (regname hostname port keytype) = none ∧
    values (mungestr hostname) = some (.sz old)

/-- The number of characters before the first slash -/
def beforeSlash (s : Text) : ℕ := (s.takeWhile fun a => a ≠ '/' ∧ a ≠ '\x00').length

/-- The length of the number at the start of a buffer without its leading zeros, for which the digits are taken
in groups of four -/
def significantDigits (buf : Text) : ℕ :=
  significant (fun j => buf.getD (xor3 j).toNat '\x00') '0' (beforeSlash buf)

/-- What follows the last whole group of the number at the start of a buffer -/
def afterGroups (buf : Text) : Text := buf.drop (beforeSlash buf / 4 * 4)

/-- The length of a number in the new format, with the comma unless it ends the string -/
def newLength (buf : Text) : ℕ :=
  2 + significantDigits buf + if (afterGroups buf).head? = some '\x00' then 0 else 1

/-- Where the second number starts -/
def secondNumber (buf : Text) : Text :=
  if (afterGroups buf).head? = some '\x00' then afterGroups buf else (afterGroups buf).drop 1

/-- The first number of an old key has at least two characters, and the new format of both numbers is not
longer than the key. An old key that is longer than the key is not its old format. -/
def OldKeyFits (old key oldstyle : Text) : Prop :=
  let buf := old ++ '\x00' :: oldstyle.drop (old.length + 1)
  if old.length ≤ key.length then
    2 ≤ beforeSlash buf ∧ newLength buf + newLength (secondNumber buf) ≤ key.length
  else ∀ exponent modulus, exponent ≠ [] → modulus ≠ [] → old = oldFormat exponent modulus →
    key ≠ newFormat (bignumValue exponent) (bignumValue modulus)

end WinRegStore

end PuttyNd.Storage
