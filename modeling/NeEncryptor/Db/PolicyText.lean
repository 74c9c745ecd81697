import NeEncryptor.Lib.CFields
import NeEncryptor.Db.Config

/-!
# The text of a rule

The functions of `db_config.c` and `config.c` that read the protocol, the address lists and the port
lists of a row of `ne_policies`. A text is what the code gets as a C string, one character a byte.
-/

namespace NeEncryptor

open CText

/-- A text of the database. -/
abbrev Text := List Char

/-- `strcasecmp` finds no difference. -/
def strcasecmpEq (s t : Text) : Bool := s.map Char.toLower == t.map Char.toLower

/-- `str_is_any`. -/
def strIsAny : Option Text → Bool
  | none => true
  | some v =>
    let v := v.dropWhile isBlank
    v == [] || strcasecmpEq v ['a', 'n', 'y'] || v == ['*']

/-! ## Ports and protocols -/

/-- `sscanf(v, "%d-%d", …) == 2`. -/
def scanIntPair (v : Text) : Option (ℤ × ℤ) :=
  match scanInt v with
  | some (a, '-' :: rest) => (scanInt rest).map fun (b, _) => (a, b)
  | _ => none

/-- `parse_port_range`. -/
def parsePortRange (v : Text) : Option (ℤ × ℤ) :=
  if strIsAny (some v) then some (-1, -1)
  else
    match (scanIntPair v).filter fun (a, b) => 0 ≤ a ∧ a ≤ b ∧ b ≤ 65535 with
    | some range => some range
    | none =>
      ((scanInt v).filter fun (a, _) => 0 ≤ a ∧ a ≤ 65535).map fun (a, _) => (a, a)

/-- `parse_protocol_name`. -/
def parseProtocolName (v : Option Text) : BitVec 8 :=
  if strIsAny v then policyProtoAny
  else
    let v := v.getD []
    if strcasecmpEq v ['t', 'c', 'p', '/', 'u', 'd', 'p'] then policyProtoTcpUdp
    else if strcasecmpEq v ['t', 'c', 'p', '_', 'u', 'd', 'p'] then policyProtoTcpUdp
    else if strcasecmpEq v ['t', 'c', 'p', '-', 'u', 'd', 'p'] then policyProtoTcpUdp
    else if strcasecmpEq v ['t', 'c', 'p'] then 6
    else if strcasecmpEq v ['u', 'd', 'p'] then 17
    else if strcasecmpEq v ['i', 'c', 'm', 'p'] then 1
    else if strcasecmpEq v ['o', 's', 'p', 'f'] then 89
    else BitVec.ofInt 8 (atoi v)

/-! ## Networks -/

/-- A part of a dotted address: up to three digits without a leading zero, at most 255. -/
def inetPart (s : Text) : Option ℕ :=
  (decimal 3 s).filter fun n => n ≤ 255 ∧ (s.head? = some '0' → s = ['0'])

/-- `inet_pton` for `AF_INET`, with the first part as the highest byte. -/
def inetPton (s : Text) : Option Ipv4 :=
  match s.splitOn '.' with
  | [a, b, c, d] =>
    (inetPart a).bind fun a => (inetPart b).bind fun b => (inetPart c).bind fun c =>
      (inetPart d).map fun d => BitVec.ofNat 32 (((a * 256 + b) * 256 + c) * 256 + d)
  | _ => none

/-- `ipv4_prefix_to_mask_be`. -/
def ipv4PrefixToMaskBe (prefixLen : ℤ) : Ipv4 :=
  if prefixLen ≤ 0 then 0
  else if 32 ≤ prefixLen then BitVec.allOnes 32
  else BitVec.allOnes 32 <<< (32 - prefixLen).toNat

/-- `ipv4_mask_be_is_contiguous`. -/
def ipv4MaskBeIsContiguous (mask : Ipv4) : Bool :=
  mask == 0 || (~~~mask &&& (~~~mask + 1)) == 0

/-- `parse_ipv4_netmask_be`. -/
def parseIpv4NetmaskBe (s : Text) : Option Ipv4 :=
  if s = [] then none else (inetPton s).filter fun mask => ipv4MaskBeIsContiguous mask

/-- The netmask that a suffix gives in `parse_ip_cidr`. -/
def parseCidrSuffix (suffix : Text) : Option Ipv4 :=
  if '.' ∈ suffix then parseIpv4NetmaskBe suffix
  else
    match scanLong suffix with
    | some (plen, []) => if plen < 0 ∨ 32 < plen then none else some (ipv4PrefixToMaskBe plen)
    | _ => none

/-- `parse_ip_cidr`: the address, the netmask and the network. -/
def parseIpCidr (str : Text) : Option (Ipv4 × Ipv4 × Ipv4) :=
  let buf := str.take 127
  let ipPart := (buf.takeWhile (· ≠ '/')).dropWhile isBlank
  let suffix := (buf.dropWhile (· ≠ '/')).tail.dropWhile isBlank
  if '/' ∈ buf ∧ suffix = [] then none
  else
    (inetPton ipPart).bind fun ip =>
      (if '/' ∈ buf then parseCidrSuffix suffix else some (ipv4PrefixToMaskBe 32)).map fun mask =>
        (ip, mask, ip &&& mask)

/-- What a policy tests of an address. -/
structure CidrTest where
  any : Bool
  negate : Bool
  net : Ipv4
  mask : Ipv4
  deriving DecidableEq, Repr

/-- `parse_cidr_any_or_negated`. -/
def parseCidrAnyOrNegated (v : Text) : Option CidrTest :=
  if strIsAny (some v) then some ⟨true, false, 0, 0⟩
  else
    let v := v.dropWhile isBlank
    let negate := v.head? == some '!'
    let v := if negate then v.tail.dropWhile isBlank else v
    (parseIpCidr v).map fun (_, mask, net) => ⟨false, negate, net, mask⟩

/-! ## Lists -/

/-- `MAX_CIDR_LIST_ITEMS`. -/
def maxCidrListItems : ℕ := 32

/-- `MAX_CIDR_ITEM_LEN`. -/
def maxCidrItemLen : ℕ := 96

/-- The loop of `split_cidr_list` over the tokens, after `count` of them. -/
def splitTokens (count : ℕ) : List Text → Option (List Text)
  | [] => if 0 < count then some [] else none
  | tok :: toks =>
    if maxCidrListItems ≤ count then none
    else if trimBlanks tok = [] then none
    else (splitTokens (count + 1) toks).map ((trimBlanks tok).take (maxCidrItemLen - 1) :: ·)

/-- `split_cidr_list`. -/
def splitCidrList (input : Text) : Option (List Text) :=
  let buf := trimBlanks (input.take 1023)
  if buf = [] then none else splitTokens 0 (strtok ',' buf)

/-- `ne_fill_nullable_list`. -/
def neFillNullableList : Option Text → Option (List Text)
  | none => some [[]]
  | some joined => if joined = [] then some [[]] else splitCidrList joined

/-- `ne_cidr_buf_with_invert`, with the buffer of its callers. -/
def neCidrBufWithInvert (tok : Text) (invertDb : Bool) : Text :=
  if invertDb ∧ tok.head? ≠ some '!' then '!' :: tok.take maxCidrItemLen
  else tok.take (maxCidrItemLen + 1)

end NeEncryptor
