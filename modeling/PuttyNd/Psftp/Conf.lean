import PuttyNd.Psftp.Proofs.MarshalProofs
import PuttyNd.Tree.Search234
import Mathlib.Data.Nat.Notation

/-!
# The configuration of a session (`psftp/conf.c`)

The types of the subkey and of the value depend on the primary key, as the tables `subkeytypes` and
`valuetypes` say. The `assert`s of the accessor functions are hypotheses here. How file names and fonts
are written is left to the platform.
-/

namespace PuttyNd.Psftp

open Lib Tree234

/-- The members of `Type` that occur as types of subkeys. -/
inductive KeyType where
  | none | int | str
deriving DecidableEq, Repr

/-- The members of `Type` that occur as types of values. -/
inductive ValueType where
  | bool | int | str | filename | font
deriving DecidableEq, Repr

structure ConfigOption where
  keyword : String
  value : ValueType
  subkey : KeyType
deriving DecidableEq, Repr

def CONFIG_OPTIONS : List ConfigOption := [
  ⟨"host", .str, .none⟩, ⟨"port", .int, .none⟩, ⟨"protocol", .int, .none⟩,
  ⟨"addressfamily", .int, .none⟩, ⟨"close_on_exit", .int, .none⟩, ⟨"warn_on_close", .bool, .none⟩,
  ⟨"ping_interval", .int, .none⟩, ⟨"tcp_nodelay", .bool, .none⟩, ⟨"tcp_keepalives", .bool, .none⟩,
  ⟨"loghost", .str, .none⟩, ⟨"proxy_exclude_list", .str, .none⟩, ⟨"proxy_dns", .int, .none⟩,
  ⟨"even_proxy_localhost", .bool, .none⟩, ⟨"proxy_type", .int, .none⟩, ⟨"proxy_host", .str, .none⟩,
  ⟨"proxy_port", .int, .none⟩, ⟨"proxy_username", .str, .none⟩, ⟨"proxy_password", .str, .none⟩,
  ⟨"proxy_telnet_command", .str, .none⟩, ⟨"proxy_log_to_term", .int, .none⟩,
  ⟨"remote_cmd", .str, .none⟩, ⟨"remote_cmd2", .str, .none⟩, ⟨"nopty", .bool, .none⟩,
  ⟨"compression", .bool, .none⟩, ⟨"ssh_kexlist", .int, .int⟩, ⟨"ssh_hklist", .int, .int⟩,
  ⟨"ssh_rekey_time", .int, .none⟩, ⟨"ssh_rekey_data", .str, .none⟩, ⟨"tryagent", .bool, .none⟩,
  ⟨"agentfwd", .bool, .none⟩, ⟨"change_username", .bool, .none⟩, ⟨"ssh_cipherlist", .int, .int⟩,
  ⟨"keyfile", .filename, .none⟩, ⟨"sshprot", .int, .none⟩, ⟨"ssh2_des_cbc", .bool, .none⟩,
  ⟨"ssh_no_userauth", .bool, .none⟩, ⟨"ssh_show_banner", .bool, .none⟩,
  ⟨"try_tis_auth", .bool, .none⟩, ⟨"try_ki_auth", .bool, .none⟩, ⟨"try_gssapi_auth", .bool, .none⟩,
  ⟨"try_gssapi_kex", .bool, .none⟩, ⟨"gssapifwd", .bool, .none⟩, ⟨"gssapirekey", .int, .none⟩,
  ⟨"ssh_gsslist", .int, .int⟩, ⟨"ssh_gss_custom", .filename, .none⟩, ⟨"ssh_subsys", .bool, .none⟩,
  ⟨"ssh_subsys2", .bool, .none⟩, ⟨"ssh_no_shell", .bool, .none⟩, ⟨"ssh_nc_host", .str, .none⟩,
  ⟨"ssh_nc_port", .int, .none⟩, ⟨"termtype", .str, .none⟩, ⟨"termspeed", .str, .none⟩,
  ⟨"ttymodes", .str, .str⟩, ⟨"environmt", .str, .str⟩, ⟨"username", .str, .none⟩,
  ⟨"username_from_env", .bool, .none⟩, ⟨"localusername", .str, .none⟩,
  ⟨"rfc_environ", .bool, .none⟩, ⟨"passive_telnet", .bool, .none⟩, ⟨"serline", .str, .none⟩,
  ⟨"serspeed", .int, .none⟩, ⟨"serdatabits", .int, .none⟩, ⟨"serstopbits", .int, .none⟩,
  ⟨"serparity", .int, .none⟩, ⟨"serflow", .int, .none⟩, ⟨"bksp_is_delete", .bool, .none⟩,
  ⟨"rxvt_homeend", .bool, .none⟩, ⟨"funky_type", .int, .none⟩, ⟨"no_applic_c", .bool, .none⟩,
  ⟨"no_applic_k", .bool, .none⟩, ⟨"no_mouse_rep", .bool, .none⟩, ⟨"no_remote_resize", .bool, .none⟩,
  ⟨"no_alt_screen", .bool, .none⟩, ⟨"no_remote_wintitle", .bool, .none⟩,
  ⟨"no_remote_clearscroll", .bool, .none⟩, ⟨"no_dbackspace", .bool, .none⟩,
  ⟨"no_remote_charset", .bool, .none⟩, ⟨"remote_qtitle_action", .int, .none⟩,
  ⟨"app_cursor", .bool, .none⟩, ⟨"app_keypad", .bool, .none⟩, ⟨"nethack_keypad", .bool, .none⟩,
  ⟨"telnet_keyboard", .bool, .none⟩, ⟨"telnet_newline", .bool, .none⟩, ⟨"alt_f4", .bool, .none⟩,
  ⟨"alt_space", .bool, .none⟩, ⟨"alt_only", .bool, .none⟩, ⟨"localecho", .int, .none⟩,
  ⟨"localedit", .int, .none⟩, ⟨"alwaysontop", .bool, .none⟩, ⟨"fullscreenonaltenter", .bool, .none⟩,
  ⟨"scroll_on_key", .bool, .none⟩, ⟨"scroll_on_disp", .bool, .none⟩,
  ⟨"erase_to_scrollback", .bool, .none⟩, ⟨"compose_key", .bool, .none⟩,
  ⟨"ctrlaltkeys", .bool, .none⟩, ⟨"osx_option_meta", .bool, .none⟩,
  ⟨"osx_command_meta", .bool, .none⟩, ⟨"wintitle", .str, .none⟩, ⟨"savelines", .int, .none⟩,
  ⟨"dec_om", .bool, .none⟩, ⟨"wrap_mode", .bool, .none⟩, ⟨"lfhascr", .bool, .none⟩,
  ⟨"cursor_type", .int, .none⟩, ⟨"blink_cur", .bool, .none⟩, ⟨"beep", .int, .none⟩,
  ⟨"beep_ind", .int, .none⟩, ⟨"bellovl", .bool, .none⟩, ⟨"bellovl_n", .int, .none⟩,
  ⟨"bellovl_t", .int, .none⟩, ⟨"bellovl_s", .int, .none⟩, ⟨"bell_wavefile", .filename, .none⟩,
  ⟨"scrollbar", .bool, .none⟩, ⟨"scrollbar_in_fullscreen", .bool, .none⟩,
  ⟨"resize_action", .int, .none⟩, ⟨"bce", .bool, .none⟩, ⟨"blinktext", .bool, .none⟩,
  ⟨"win_name_always", .bool, .none⟩, ⟨"width", .int, .none⟩, ⟨"height", .int, .none⟩,
  ⟨"font", .font, .none⟩, ⟨"font_quality", .int, .none⟩, ⟨"logfilename", .filename, .none⟩,
  ⟨"logtype", .int, .none⟩, ⟨"logxfovr", .int, .none⟩, ⟨"logflush", .bool, .none⟩,
  ⟨"logheader", .bool, .none⟩, ⟨"logomitpass", .bool, .none⟩, ⟨"logomitdata", .bool, .none⟩,
  ⟨"hide_mouseptr", .bool, .none⟩, ⟨"sunken_edge", .bool, .none⟩, ⟨"window_border", .int, .none⟩,
  ⟨"answerback", .str, .none⟩, ⟨"printer", .str, .none⟩, ⟨"no_arabicshaping", .bool, .none⟩,
  ⟨"no_bidi", .bool, .none⟩, ⟨"ansi_colour", .bool, .none⟩, ⟨"xterm_256_colour", .bool, .none⟩,
  ⟨"true_colour", .bool, .none⟩, ⟨"system_colour", .bool, .none⟩, ⟨"try_palette", .bool, .none⟩,
  ⟨"bold_style", .int, .none⟩, ⟨"colours", .int, .int⟩, ⟨"mouse_is_xterm", .int, .none⟩,
  ⟨"rect_select", .bool, .none⟩, ⟨"paste_controls", .bool, .none⟩, ⟨"rawcnp", .bool, .none⟩,
  ⟨"utf8linedraw", .bool, .none⟩, ⟨"rtf_paste", .bool, .none⟩, ⟨"mouse_override", .bool, .none⟩,
  ⟨"wordness", .int, .int⟩, ⟨"mouseautocopy", .bool, .none⟩, ⟨"mousepaste", .int, .none⟩,
  ⟨"ctrlshiftins", .int, .none⟩, ⟨"ctrlshiftcv", .int, .none⟩, ⟨"mousepaste_custom", .str, .none⟩,
  ⟨"ctrlshiftins_custom", .str, .none⟩, ⟨"ctrlshiftcv_custom", .str, .none⟩,
  ⟨"vtmode", .int, .none⟩, ⟨"line_codepage", .str, .none⟩, ⟨"cjk_ambig_wide", .bool, .none⟩,
  ⟨"utf8_override", .bool, .none⟩, ⟨"xlat_capslockcyr", .bool, .none⟩,
  ⟨"x11_forward", .bool, .none⟩, ⟨"x11_display", .str, .none⟩, ⟨"x11_auth", .int, .none⟩,
  ⟨"xauthfile", .filename, .none⟩, ⟨"lport_acceptall", .bool, .none⟩,
  ⟨"rport_acceptall", .bool, .none⟩, ⟨"portfwd", .str, .str⟩, ⟨"sshbug_ignore1", .int, .none⟩,
  ⟨"sshbug_plainpw1", .int, .none⟩, ⟨"sshbug_rsa1", .int, .none⟩, ⟨"sshbug_hmac2", .int, .none⟩,
  ⟨"sshbug_derivekey2", .int, .none⟩, ⟨"sshbug_rsapad2", .int, .none⟩,
  ⟨"sshbug_pksessid2", .int, .none⟩, ⟨"sshbug_rekey2", .int, .none⟩,
  ⟨"sshbug_maxpkt2", .int, .none⟩, ⟨"sshbug_ignore2", .int, .none⟩, ⟨"sshbug_oldgex2", .int, .none⟩,
  ⟨"sshbug_winadj", .int, .none⟩, ⟨"sshbug_chanreq", .int, .none⟩, ⟨"ssh_simple", .bool, .none⟩,
  ⟨"ssh_connection_sharing", .bool, .none⟩, ⟨"ssh_connection_sharing_upstream", .bool, .none⟩,
  ⟨"ssh_connection_sharing_downstream", .bool, .none⟩, ⟨"ssh_manual_hostkeys", .str, .str⟩,
  ⟨"stamp_utmp", .bool, .none⟩, ⟨"login_shell", .bool, .none⟩, ⟨"scrollbar_on_left", .bool, .none⟩,
  ⟨"shadowbold", .bool, .none⟩, ⟨"boldfont", .font, .none⟩, ⟨"widefont", .font, .none⟩,
  ⟨"wideboldfont", .font, .none⟩, ⟨"shadowboldoffset", .int, .none⟩, ⟨"crhaslf", .bool, .none⟩,
  ⟨"winclass", .str, .none⟩]

/-- `N_CONFIG_OPTIONS` -/
abbrev nConfigOptions : ℕ := CONFIG_OPTIONS.length

/-- `enum config_primary_key` -/
abbrev Primary := Fin nConfigOptions

def subkeytypes (primary : Primary) : KeyType := (CONFIG_OPTIONS.get primary).subkey

def valuetypes (primary : Primary) : ValueType := (CONFIG_OPTIONS.get primary).value

/-- `int` as the 32 bits that are sent, and `toint` of them. -/
def intCodec : Codec UInt8 Int32 := uint32Codec.imap Int32.toUInt32 UInt32.toInt32 fun _ => rfl

/-- What the platform has for `Filename` and `FontSpec`, and how it serialises them. -/
structure Platform where
  Filename : Type
  FontSpec : Type
  filename : Codec UInt8 Filename
  fontspec : Codec UInt8 FontSpec

/-- The member of the union `secondary`. -/
def KeyType.Data : KeyType → Type
  | .none => Unit
  | .int => Int32
  | .str => CStr

/-- The member of the union `u`. -/
def ValueType.Data (P : Platform) : ValueType → Type
  | .bool => Bool
  | .int => Int32
  | .str => CStr
  | .filename => P.Filename
  | .font => P.FontSpec

/-- The `switch` over `subkeytypes` in `conf_serialise` and `conf_deserialise`. -/
def KeyType.codec : (t : KeyType) → Codec UInt8 t.Data
  | .none => Codec.unit
  | .int => intCodec
  | .str => ascizCodec

/-- The `switch` over `valuetypes` in `conf_serialise` and `conf_deserialise`. -/
def ValueType.codec (P : Platform) : (t : ValueType) → Codec UInt8 (t.Data P)
  | .bool => boolCodec
  | .int => intCodec
  | .str => ascizCodec
  | .filename => P.filename
  | .font => P.fontspec

/-- `struct key` -/
structure Key where
  primary : Primary
  secondary : (subkeytypes primary).Data

/-- A key and its value. -/
structure Setting (P : Platform) where
  key : Key
  value : (valuetypes key.primary).Data P

/-- `struct conf_entry`, with the address that `snew` has given to it. -/
structure Entry (P : Platform) where
  addr : ℕ
  setting : Setting P

/-- `strcmp` compares the bytes as unsigned. -/
def strcmp (a b : CStr) : Ordering := compare a.val b.val

/-- The `switch` in `conf_cmp`. -/
def KeyType.cmp : (t : KeyType) → t.Data → t.Data → Ordering
  | .int => fun a b : Int32 => compare a b
  | .str => strcmp
  | .none => fun _ _ => .eq

/-- `conf_cmp` -/
def confCmp (a b : Key) : Ordering :=
  if a.primary < b.primary then .lt
  else if b.primary < a.primary then .gt
  else if h : b.primary = a.primary then
    (subkeytypes a.primary).cmp a.secondary (h ▸ b.secondary)
  else .eq

/-- `Conf`, with the address of the next entry. -/
structure Conf (P : Platform) where
  tree : Tree234.Tree (Entry P)
  next : ℕ

variable {P : Platform}

/-- `conf_new` -/
def confNew : Conf P := ⟨newtree234 (some fun a b => confCmp a.setting.key b.setting.key), 0⟩

/-- `conf_insert`, none if the assertion fails. -/
def confInsert (conf : Conf P) (entry : Entry P) : Option (Conf P) :=
  match add234 conf.tree entry with
  | some (tree, some oldentry) =>
    if oldentry.addr ≠ entry.addr then
      match del234 tree oldentry with
      | none => none
      | some (tree, _) =>
        match add234 tree entry with
        | some (tree, some oldentry) =>
          if oldentry.addr = entry.addr then some { conf with tree := tree } else none
        | _ => none
    else some { conf with tree := tree }
  | some (tree, none) => some { conf with tree := tree }
  | none => none

/-- What all of `conf_set_bool`, …, `conf_set_fontspec` do: a new entry is inserted. -/
def confSet (conf : Conf P) (setting : Setting P) : Option (Conf P) :=
  confInsert { conf with next := conf.next + 1 } ⟨conf.next, setting⟩

section Accessors

variable (conf : Conf P) (primary : Primary)

def confSetBool (hk : subkeytypes primary = .none) (hv : valuetypes primary = .bool) (value : Bool) :
    Option (Conf P) :=
  confSet conf ⟨⟨primary, hk ▸ ()⟩, hv ▸ value⟩

def confSetInt (hk : subkeytypes primary = .none) (hv : valuetypes primary = .int) (value : Int32) :
    Option (Conf P) :=
  confSet conf ⟨⟨primary, hk ▸ ()⟩, hv ▸ value⟩

def confSetIntInt (hk : subkeytypes primary = .int) (hv : valuetypes primary = .int)
    (secondary value : Int32) : Option (Conf P) :=
  confSet conf ⟨⟨primary, hk ▸ secondary⟩, hv ▸ value⟩

def confSetStr (hk : subkeytypes primary = .none) (hv : valuetypes primary = .str) (value : CStr) :
    Option (Conf P) :=
  confSet conf ⟨⟨primary, hk ▸ ()⟩, hv ▸ value⟩

def confSetStrStr (hk : subkeytypes primary = .str) (hv : valuetypes primary = .str)
    (secondary value : CStr) : Option (Conf P) :=
  confSet conf ⟨⟨primary, hk ▸ secondary⟩, hv ▸ value⟩

def confSetFilename (hk : subkeytypes primary = .none) (hv : valuetypes primary = .filename)
    (value : P.Filename) : Option (Conf P) :=
  confSet conf ⟨⟨primary, hk ▸ ()⟩, hv ▸ value⟩

def confSetFontspec (hk : subkeytypes primary = .none) (hv : valuetypes primary = .font)
    (value : P.FontSpec) : Option (Conf P) :=
  confSet conf ⟨⟨primary, hk ▸ ()⟩, hv ▸ value⟩

/-- What the accessors `conf_get_bool`, …, `conf_get_fontspec` look up. -/
def confFind (key : Key) : Option (Entry P) :=
  find234 conf.tree fun entry => confCmp key entry.setting.key

def confDelStrStr (hk : subkeytypes primary = .str) (_ : valuetypes primary = .str)
    (secondary : CStr) : Option (Conf P) :=
  match confFind conf ⟨primary, hk ▸ secondary⟩ with
  | none => some conf
  | some entry => (del234 conf.tree entry).map fun r => { conf with tree := r.1 }

end Accessors

/-- The calls that build a configuration. -/
inductive ConfOp (P : Platform) where
  | setBool (primary : Primary) (hk : subkeytypes primary = .none) (hv : valuetypes primary = .bool)
    (value : Bool)
  | setInt (primary : Primary) (hk : subkeytypes primary = .none) (hv : valuetypes primary = .int)
    (value : Int32)
  | setIntInt (primary : Primary) (hk : subkeytypes primary = .int) (hv : valuetypes primary = .int)
    (secondary value : Int32)
  | setStr (primary : Primary) (hk : subkeytypes primary = .none) (hv : valuetypes primary = .str)
    (value : CStr)
  | setStrStr (primary : Primary) (hk : subkeytypes primary = .str) (hv : valuetypes primary = .str)
    (secondary value : CStr)
  | setFilename (primary : Primary) (hk : subkeytypes primary = .none)
    (hv : valuetypes primary = .filename) (value : P.Filename)
  | setFontspec (primary : Primary) (hk : subkeytypes primary = .none)
    (hv : valuetypes primary = .font) (value : P.FontSpec)
  | delStrStr (primary : Primary) (hk : subkeytypes primary = .str) (hv : valuetypes primary = .str)
    (secondary : CStr)

def confOp (conf : Conf P) : ConfOp P → Option (Conf P)
  | .setBool primary hk hv value => confSetBool conf primary hk hv value
  | .setInt primary hk hv value => confSetInt conf primary hk hv value
  | .setIntInt primary hk hv secondary value => confSetIntInt conf primary hk hv secondary value
  | .setStr primary hk hv value => confSetStr conf primary hk hv value
  | .setStrStr primary hk hv secondary value => confSetStrStr conf primary hk hv secondary value
  | .setFilename primary hk hv value => confSetFilename conf primary hk hv value
  | .setFontspec primary hk hv value => confSetFontspec conf primary hk hv value
  | .delStrStr primary hk hv secondary => confDelStrStr conf primary hk hv secondary

/-- The calls one after the other, none if an assertion fails. -/
def confRun (conf : Conf P) (ops : List (ConfOp P)) : Option (Conf P) := ops.foldlM confOp conf

/-! ## Serialisation -/

/-- One round of the loop in `conf_serialise`. -/
def putSetting (s : Setting P) : List UInt8 :=
  putUint32 (UInt32.ofNat s.key.primary) ++ ((subkeytypes s.key.primary).codec.put s.key.secondary ++
    ((valuetypes s.key.primary).codec P).put s.value)

/-- The loop over the entries from the index `i` on, for at most `fuel` rounds. -/
def serialiseFrom (tree : Tree234.Tree (Entry P)) : ℕ → ℕ → List UInt8
  | 0, _ => []
  | fuel + 1, i =>
    match index234 tree i with
    | none => []
    | some entry => putSetting entry.setting ++ serialiseFrom tree fuel (i + 1)

/-- `conf_serialise` -/
def confSerialise (conf : Conf P) : List UInt8 :=
  serialiseFrom conf.tree (count234 conf.tree + 1) 0 ++ putUint32 0xFFFFFFFF

theorem getUint32_length {src : BinarySource} (h : (getUint32 src).2.err = false) :
    (getUint32 src).2.data.length < src.data.length := by
  unfold getUint32 avail at *
  split_ifs at * <;> simp_all
  omega

/-- The two `switch`es in the loop of `conf_deserialise`. -/
def getSetting (primary : Primary) (src : BinarySource) : Setting P × BinarySource :=
  let secondary := (subkeytypes primary).codec.get src
  let value := ((valuetypes primary).codec P).get secondary.2
  (⟨⟨primary, secondary.1⟩, value.1⟩, value.2)

theorem getSetting_length (primary : Primary) (src : BinarySource) :
    (getSetting (P := P) primary src).2.data.length ≤ src.data.length :=
  Nat.le_trans (((valuetypes primary).codec P).get_length _)
    ((subkeytypes primary).codec.get_length src)

/-- `conf_deserialise`: what is returned, and what becomes of the configuration and the source. None if
the assertion in `conf_insert` fails. -/
def confDeserialise (conf : Conf P) (src : BinarySource) : Option (Bool × Conf P × BinarySource) :=
  if _herr : (getUint32 src).2.err = true then some (false, conf, (getUint32 src).2)
  else if (getUint32 src).1 = 0xFFFFFFFF then some (true, conf, (getUint32 src).2)
  else if h : (getUint32 src).1.toNat < nConfigOptions then
    let r := getSetting ⟨(getUint32 src).1.toNat, h⟩ (getUint32 src).2
    if r.2.err then some (false, conf, r.2)
    else
      match confSet conf r.1 with
      | none => none
      | some conf => confDeserialise conf r.2
  else some (false, conf, (getUint32 src).2)
termination_by src.data.length
decreasing_by
  have h1 : (getUint32 src).2.data.length < src.data.length :=
    getUint32_length (by simpa using _herr)
  exact Nat.lt_of_le_of_lt (getSetting_length _ _) h1

/-! ## The Windows platform -/

/-- `FontSpec` (`windows/winstuff.h`) -/
structure WinFontSpec where
  name : CStr
  isbold : Bool
  height : Int32
  charset : Int32
deriving DecidableEq

/-- `filename_serialise`, `fontspec_serialise` and their counterparts (`windows/winmisc.c`). -/
def windows : Platform where
  Filename := CStr
  FontSpec := WinFontSpec
  filename := ascizCodec
  fontspec := (ascizCodec.pair (uint32Codec.pair (intCodec.pair intCodec))).imap
    (fun f => (f.name, if f.isbold then 1 else 0, f.height, f.charset))
    (fun x => ⟨x.1, x.2.1 ≠ 0, x.2.2.1, x.2.2.2⟩)
    (by rintro ⟨name, _ | _, height, charset⟩ <;> rfl)

end PuttyNd.Psftp
