/-
  The type registry of the client scripts, and what the library makes of the store of a chain by it.

  The bytes under a storage key do not say what they are. The scripts tell the library the names and
  the types of the fields of a certificate, in a table of their own, and the library reads the bytes
  by it. The library is a parameter: what is assumed of it is how it reads each of the types and
  that it reads the fields of a struct one after the other (`TypeReader.Reads`), and under which key
  it looks and what it does with what it finds there (`SubstrateInterface.Documented`). Then a node
  that hands out its store gives the scripts the certificates that the chain holds, every field
  under its name (`query_read`): the table has the fields in the order of the struct of the pallet.
-/
import Siip.Client.Scripts
import Siip.Pallet.Raw

namespace Siip.Client

open Lib Pallet Python
open Proxy (Substrate)

variable {A : Type}

/-! ## Reading by a table -/

inductive FieldValue (A : Type) where
  | int (n : Int32)
  | account (who : A)
  | text (cs : Str)
  deriving DecidableEq

/-- A struct as the clients get it: its fields under their names. -/
abbrev Dict (A : Type) := List (String × FieldValue A)

/-- A library that reads SCALE: a value of a type, or the fields of a struct, and what follows. -/
structure TypeReader (A : Type) where
  decodeType : (type : String) → Bytes → Option (FieldValue A × Bytes)
  decodeStruct : (typeMapping : List (String × String)) → Bytes → Option (Dict A × Bytes)

/-- It knows the types of a certificate, a vector of bytes by the name `textType`, and reads the
    fields of a struct in their order. -/
structure TypeReader.Reads (reader : TypeReader A) (account : Codec A) (textType : String)
    (text : Bytes → Str) : Prop where
  i32 : ∀ n rest, reader.decodeType "i32" (i32Code.encode n ++ rest) = some (.int n, rest)
  accountId : ∀ who rest,
    reader.decodeType "AccountId" (account.encode who ++ rest) = some (.account who, rest)
  bytes : ∀ bs rest, bs.length < 2 ^ 32 →
    reader.decodeType textType (PrefixCode.bytes.encode bs ++ rest) = some (.text (text bs), rest)
  nil : ∀ rest, reader.decodeStruct [] rest = some ([], rest)
  cons : ∀ {name type fields bs mid rest v dict}, reader.decodeType type bs = some (v, mid) →
    reader.decodeStruct fields mid = some (dict, rest) →
      reader.decodeStruct ((name, type) :: fields) bs = some ((name, v) :: dict, rest)

/-- Every table with these types reads the fields of a certificate, whatever it calls them. -/
theorem TypeReader.Reads.decodeStruct_certificate {reader : TypeReader A} {account : Codec A}
    {textType : String} {text : Bytes → Str} (h : reader.Reads account textType text)
    {version owner name info key ipAddr domain : String} {c : Certificate A}
    (hc : (certificateCode account).Fits c) (rest : Bytes) :
    reader.decodeStruct
        [(version, "i32"), (owner, "AccountId"), (name, textType), (info, textType),
          (key, textType), (ipAddr, textType), (domain, textType)]
        ((certificateCode account).encode c ++ rest) =
      some ([(version, .int c.versionNumber), (owner, .account c.ownerId),
        (name, .text (text c.name)), (info, .text (text c.info)), (key, .text (text c.key)),
        (ipAddr, .text (text c.ipAddr)), (domain, .text (text c.domain))], rest) := by
  obtain ⟨hname, hinfo, hkey, hip, hdomain⟩ := fits_certificateCode.mp hc
  have hencode : (certificateCode account).encode c = i32Code.encode c.versionNumber ++
      (account.encode c.ownerId ++ (PrefixCode.bytes.encode c.name ++
        (PrefixCode.bytes.encode c.info ++ (PrefixCode.bytes.encode c.key ++
          (PrefixCode.bytes.encode c.ipAddr ++ PrefixCode.bytes.encode c.domain))))) := rfl
  simp only [hencode, List.append_assoc]
  refine h.cons (h.i32 _ _) ?_
  refine h.cons (h.accountId _ _) ?_
  refine h.cons (h.bytes _ _ hname) ?_
  refine h.cons (h.bytes _ _ hinfo) ?_
  refine h.cons (h.bytes _ _ hkey) ?_
  refine h.cons (h.bytes _ _ hip) ?_
  exact h.cons (h.bytes _ _ hdomain) (h.nil rest)

/-! ## Queries -/

/-- `type_mapping` of the struct `Certificate`, the same in all the scripts. -/
def typeMapping : List (String × String) :=
  [("version_number", "i32"), ("owner_id", "AccountId"), ("name", "Vec<u8>"), ("info", "Vec<u8>"),
    ("key", "Vec<u8>"), ("ip_addr", "Vec<u8>"), ("domain", "Vec<u8>")]

/-- What a node answers when it is asked for the bytes under a key of its store. -/
abbrev GetStorage := Bytes → Option Bytes

/-- The library `substrateinterface`. A query raises (`none`) or gives a `.value`; `absent` is what
    it gives where the node has nothing. -/
structure SubstrateInterface (A : Type) extends TypeReader A where
  query : (typeMapping : List (String × String)) → GetStorage → (module storageFunction : String) →
    (param : Str) → Option (Option (Dict A))
  absent : Option (Dict A)

/-- It asks the node for the key of the storage item that the parameter has, and reads what it gets
    to its end. -/
structure SubstrateInterface.Documented (lib : SubstrateInterface A) (hashers : Hashers)
    (account : Codec A) (sub : Substrate) (encoder : Encoder) : Prop where
  reads : lib.Reads account "Vec<u8>" sub.text
  query_absent : ∀ {types} {node : GetStorage} {param},
    node ((certificateItem hashers account).key (encoder.vec param)) = none →
      lib.query types node "SiipModule" "CertificateMap" param = some lib.absent
  query_stored : ∀ {types} {node : GetStorage} {param bs dict},
    node ((certificateItem hashers account).key (encoder.vec param)) = some bs →
      lib.decodeStruct types bs = some (dict, []) →
        lib.query types node "SiipModule" "CertificateMap" param = some (some dict)

/-- `plow_single`, of a node that answers for its store -/
def plowStore (lib : SubstrateInterface A) (domain : Str) (node : GetStorage) :
    Option (Option (Dict A)) :=
  lib.query typeMapping node "SiipModule" "CertificateMap" domain

def CertValue.toDict (c : CertValue A) : Dict A :=
  [("version_number", .int c.versionNumber), ("owner_id", .account c.ownerId),
    ("name", .text c.name), ("info", .text c.info), ("key", .text c.key),
    ("ip_addr", .text c.ipAddr), ("domain", .text c.domain)]

/-- A node that hands out its store gives the scripts the certificate that the chain holds for the
    domain, every field under its name; where it holds none, the library tells so in its way. -/
theorem query_read [DecidableEq A] [Inhabited A] {lib : SubstrateInterface A} {hashers : Hashers}
    {account : Codec A} {sub : Substrate} {encoder : Encoder}
    (hlib : lib.Documented hashers account sub encoder) (env : Env) (start : ByteStore)
    (hstart : (scaleLayout hashers account).Blank start) (xs : List (Extrinsic A))
    (hfits : ∀ x ∈ xs, (scaleLayout hashers account).FitsCall x.call)
    (hlen : xs.length < 2 ^ 32) (domain : Str) (hdomain : (encoder.vec domain).length < 2 ^ 32) :
    plowStore lib domain (Raw.after (scaleLayout hashers account) env start xs).store.find? =
      some (match (runFromEmpty env xs).certificateMap.find? (encoder.vec domain) with
        | some c => some (value sub c).toDict
        | none => lib.absent) := by
  have h := hstart.related_after env hfits (Nat.le_pred_of_lt hlen)
  have hstored := h.forward.stored _ (PrefixCode.fits_bytes.mpr hdomain)
  cases hc : (runFromEmpty env xs).certificateMap.find? (encoder.vec domain) with
  | none =>
    rw [hc, Option.map_none] at hstored
    exact hlib.query_absent hstored
  | some c =>
    rw [hc, Option.map_some] at hstored
    have hread : lib.decodeStruct typeMapping ((certificateCode account).encode c ++ []) =
        some ((value sub c).toDict, []) :=
      hlib.reads.decodeStruct_certificate (h.forward.fits _ c hc) []
    rw [List.append_nil] at hread
    exact hlib.query_stored hstored hread

/-! ## A concrete library -/

section

variable (hashers : Hashers) (account : Codec A) (sub : Substrate) (encoder : Encoder)

def plainDecodeType (type : String) (bs : Bytes) : Option (FieldValue A × Bytes) :=
  match type with
  | "i32" => (i32Code.decode bs).map fun p => (.int p.1, p.2)
  | "AccountId" => (account.decode bs).map fun p => (.account p.1, p.2)
  | "Vec<u8>" => (PrefixCode.bytes.decode bs).map fun p => (.text (sub.text p.1), p.2)
  | "String" => (PrefixCode.bytes.decode bs).map fun p => (.text (sub.text p.1), p.2)
  | _ => none

def plainDecodeStruct : List (String × String) → Bytes → Option (Dict A × Bytes)
  | [], bs => some ([], bs)
  | (name, type) :: fields, bs =>
    (plainDecodeType account sub type bs).bind fun p =>
      (plainDecodeStruct fields p.2).map fun q => ((name, p.1) :: q.1, q.2)

def plainReader : TypeReader A where
  decodeType := plainDecodeType account sub
  decodeStruct := plainDecodeStruct account sub

theorem reads_plainReader {textType : String}
    (htext : textType = "Vec<u8>" ∨ textType = "String") :
    (plainReader account sub).Reads account textType sub.text where
  i32 n rest := by
    dsimp only [plainReader]
    rw [plainDecodeType, i32Code.decode_encode trivial, Option.map_some]
  accountId who rest := by
    dsimp only [plainReader]
    rw [plainDecodeType, account.decode_encode, Option.map_some]
  bytes bs rest hbs := by
    have hread := PrefixCode.bytes.decode_encode (PrefixCode.fits_bytes.mpr hbs) rest
    dsimp only [plainReader]
    rcases htext with rfl | rfl
    · rw [plainDecodeType, hread, Option.map_some]
    · rw [plainDecodeType, hread, Option.map_some]
  nil _ := rfl
  cons {name type fields bs mid rest v dict} hv hfields := by
    change plainDecodeType account sub type bs = _ at hv
    change plainDecodeStruct account sub fields mid = _ at hfields
    change plainDecodeStruct account sub ((name, type) :: fields) bs = _
    rw [plainDecodeStruct, hv, Option.bind_some, hfields, Option.map_some]

def plainInterface : SubstrateInterface A where
  __ := plainReader account sub
  query types node _ _ param :=
    match node ((certificateItem hashers account).key (encoder.vec param)) with
    | none => some none
    | some bs => (plainDecodeStruct account sub types bs).map fun p => some p.1
  absent := none

theorem documented_plainInterface :
    (plainInterface hashers account sub encoder).Documented hashers account sub encoder where
  reads := reads_plainReader account sub (.inl rfl)
  query_absent hnone := by
    simp only [plainInterface, hnone]
  query_stored hstored hread := by
    change plainDecodeStruct account sub _ _ = _ at hread
    simp only [plainInterface, hstored, hread, Option.map_some]

end

theorem query_read_ab :
    plowStore (plainInterface chainHashers (.bytes 32) Proxy.plainSubstrate plainEncoder)
        "ab.cd".toList (Raw.after chainLayout asciiEnv .empty [registerOnes]).store.find? =
      some (some [("version_number", .int 1), ("owner_id", .account ones),
        ("name", .text "A".toList), ("info", .text "\x7b\x7d".toList),
        ("key", .text "AB".toList), ("ip_addr", .text "1.1.1.1".toList),
        ("domain", .text "ab.cd".toList)]) := by
  have hvec : plainEncoder.vec "ab.cd".toList = asBytes "ab.cd" := by
    rw [plainEncoder.vec_of_plain (by decide), utf8Bytes_toList]
  rw [chainLayout, query_read (documented_plainInterface chainHashers (.bytes 32)
    Proxy.plainSubstrate plainEncoder) asciiEnv .empty ⟨fun _ => rfl, fun _ => rfl⟩ [registerOnes]
    fits_registerOnes (by decide) "ab.cd".toList (by rw [hvec]; decide +kernel), hvec,
    registerOnes, find?_of_register ones fieldError_ab]
  simp only [value, newCert, CertValue.toDict,
    Proxy.plainSubstrate.text_of_utf8 (fromUtf8_asBytes _)]
  rfl

end Siip.Client
