/-
  What the form shows of the chain: the certificate of a domain, and those of an address.

  The client library reads the store by `types.json`, which names the fields of a certificate in its
  own way, and takes the default of the storage item where nothing is stored. It is a parameter:
  what is assumed of it is `PolkadotJs.Documented`. The handlers of the form read the fields by the
  names of `types.json`. For every text in the field, they show what the maps of the model hold
  (`lookups_shown`): in particular the form finds a domain exactly when it is registered, and no
  certificate of an address is passed over.
-/
import Siip.Client.TypeRegistry
import Siip.Ui.Form

namespace Siip.Ui

open Lib Pallet
open Client (Dict FieldValue GetStorage TypeReader plainReader reads_plainReader)
open Proxy (Substrate)

variable {A : Type}

/-! ## The handlers -/

/-- `Certificate` in `types.json` -/
def certificateTypes : List (String × String) :=
  [("version_number", "i32"), ("owner_id", "AccountId"), ("owner_name", "String"),
    ("public_key_info", "String"), ("public_key", "String"), ("ip_addr", "String"),
    ("domain_name", "String")]

/-- A field that is shown as a text, `undefined` where the object has none. -/
def textOf (json : Dict A) (name : String) : Option Text :=
  match json.lookup name with
  | some (.text cs) => some cs
  | _ => none

/-- `json.version_number === 0` -/
def isVersionZero (json : Dict A) : Bool :=
  match json.lookup "version_number" with
  | some (.int n) => n = 0
  | _ => false

/-- What `updateDb` sets. -/
structure Db where
  name : Option Text
  ipAddr : Option Text
  info : Option Text
  publicKey : Option Text
  tip : Option Text
  domainExists : Bool
  deriving DecidableEq

/-- `queryResHandler` of `updateDb` -/
def dbOf (json : Dict A) : Db where
  name := textOf json "owner_name"
  ipAddr := textOf json "ip_addr"
  info := textOf json "public_key_info"
  publicKey := textOf json "public_key"
  tip := textOf json "tip"
  domainExists := !isVersionZero json

/-- A card of the reverse lookup. -/
structure CertificateCard where
  domainField : Option Text
  nameField : Option Text
  ipField : Option Text
  infoField : Option Text
  publicKeyField : Option Text
  deriving DecidableEq

def cardOf (json : Dict A) : CertificateCard where
  domainField := textOf json "domain_name"
  nameField := textOf json "owner_name"
  ipField := textOf json "ip_addr"
  infoField := textOf json "public_key_info"
  publicKeyField := textOf json "public_key"

/-- `queryResHandler` of `reverseLookup` -/
def cardsOf (json : List (Dict A)) : List CertificateCard :=
  (json.filter fun cert => !isVersionZero cert).map cardOf

/-! ## The queries -/

/-- The client library with the types that it was given. A query hands over the object that JSON
    makes of what is stored, or raises (`none`). -/
structure PolkadotJs (A : Type) extends Api, TypeReader A where
  decodeVec : (types : List (String × String)) → Bytes → Option (List (Dict A) × Bytes)
  certificateMap : (types : List (String × String)) → GetStorage → Text → Option (Dict A)
  reverseMap : (types : List (String × String)) → GetStorage → Text → Option (List (Dict A))

/-- It knows the types of `types.json`, reads the items of a vector one after the other, and asks
    the node for the key that the parameter has in the storage item. Where the node has nothing it
    reads the default of the item. -/
structure PolkadotJs.Documented [Inhabited A] (lib : PolkadotJs A) (hashers : Hashers)
    (account : Codec A) (sub : Substrate) : Prop where
  reads : lib.Reads account "String" sub.text
  vec : ∀ {types} {items : List (Bytes × Dict A)}, items.length < 2 ^ 32 →
    (∀ item ∈ items, ∀ rest, lib.decodeStruct types (item.1 ++ rest) = some (item.2, rest)) →
      lib.decodeVec types (encodeCompact items.length ++ items.flatMap Prod.fst) =
        some (items.map Prod.snd, [])
  query_certificateMap : ∀ {types} {node : GetStorage} {domain dict},
    lib.decodeStruct types ((node ((certificateItem hashers account).key
        (lib.bytes (some domain)))).getD ((certificateCode account).encode default)) =
      some (dict, []) →
        lib.certificateMap types node domain = some dict
  query_reverseMap : ∀ {types} {node : GetStorage} {ip dicts},
    lib.decodeVec types ((node ((reverseItem hashers account).key
        (lib.bytes (some ip)))).getD ((certificateCode account).vec.encode [])) =
      some (dicts, []) →
        lib.reverseMap types node ip = some dicts

/-- `updateDb` for what stands in the field of the domain. -/
def lookupDb (lib : PolkadotJs A) (node : GetStorage) (domain : Text) : Option Db :=
  (lib.certificateMap certificateTypes node domain).map dbOf

def reverseLookup (lib : PolkadotJs A) (node : GetStorage) (ip : Text) :
    Option (List CertificateCard) :=
  (lib.reverseMap certificateTypes node ip).map cardsOf

/-! ## What is shown -/

section

variable {account : Codec A} (sub : Substrate)

/-- The object that the library makes of a certificate. -/
def jsonOf (c : Certificate A) : Dict A :=
  [("version_number", .int c.versionNumber), ("owner_id", .account c.ownerId),
    ("owner_name", .text (sub.text c.name)), ("public_key_info", .text (sub.text c.info)),
    ("public_key", .text (sub.text c.key)), ("ip_addr", .text (sub.text c.ipAddr)),
    ("domain_name", .text (sub.text c.domain))]

/-- What the form shows of a certificate. -/
def cardFor (c : Certificate A) : CertificateCard where
  domainField := sub.text c.domain
  nameField := sub.text c.name
  ipField := sub.text c.ipAddr
  infoField := sub.text c.info
  publicKeyField := sub.text c.key

theorem cardsOf_jsonOf {cs : List (Certificate A)}
    (hcs : ∀ c ∈ cs, c.versionNumber = certificateVersion) :
    cardsOf (cs.map (jsonOf sub)) = cs.map (cardFor sub) := by
  have hkept : ∀ json ∈ cs.map (jsonOf sub), (!isVersionZero json) = true := by
    intro json hjson
    obtain ⟨c, hc, rfl⟩ := List.mem_map.mp hjson
    simp [isVersionZero, jsonOf, hcs c hc, certificateVersion]
  rw [cardsOf, List.filter_eq_self.mpr hkept, List.map_map]
  rfl

theorem isVersionZero_jsonOf (c : Certificate A) :
    isVersionZero (jsonOf sub c) = decide (c.versionNumber = 0) := rfl

variable [Inhabited A] {lib : PolkadotJs A} {hashers : Hashers}

section

variable (h : lib.Documented hashers account sub)

include h

theorem PolkadotJs.Documented.decodeStruct_jsonOf {c : Certificate A}
    (hc : (certificateCode account).Fits c) (rest : Bytes) :
    lib.decodeStruct certificateTypes ((certificateCode account).encode c ++ rest) =
      some (jsonOf sub c, rest) :=
  h.reads.decodeStruct_certificate hc rest

theorem PolkadotJs.Documented.decodeStruct_jsonOf_nil {c : Certificate A}
    (hc : (certificateCode account).Fits c) :
    lib.decodeStruct certificateTypes ((certificateCode account).encode c) =
      some (jsonOf sub c, []) := by
  have hread := h.decodeStruct_jsonOf sub hc []
  rwa [List.append_nil] at hread

theorem PolkadotJs.Documented.decodeVec_jsonOf {cs : List (Certificate A)}
    (hcs : (certificateCode account).vec.Fits cs) :
    lib.decodeVec certificateTypes ((certificateCode account).vec.encode cs) =
      some (cs.map (jsonOf sub), []) := by
  obtain ⟨hlen, hcs⟩ := hcs
  obtain ⟨items, hitems⟩ : ∃ items : List (Bytes × Dict A),
      cs.map (fun c => ((certificateCode account).encode c, jsonOf sub c)) = items := ⟨_, rfl⟩
  have hlength : items.length = cs.length := by rw [← hitems, List.length_map]
  have heach : ∀ item ∈ items, ∀ rest,
      lib.decodeStruct certificateTypes (item.1 ++ rest) = some (item.2, rest) := by
    intro item hitem rest
    obtain ⟨c, hc, rfl⟩ := List.mem_map.mp (hitems.symm ▸ hitem)
    exact h.decodeStruct_jsonOf sub (hcs c hc) rest
  have hread := h.vec (hlength.trans_lt hlen) heach
  rw [hlength, ← hitems, List.flatMap_map, List.map_map] at hread
  exact hread

end

variable [DecidableEq A]

/-- For every text in the field of the domain, the form shows the texts of the certificate that the
    chain holds for it, and that it exists; for every address, one card for each certificate in the
    list of the address, in the order of the list. -/
theorem lookups_shown (hlib : lib.Documented hashers account sub) (env : Env) (start : ByteStore)
    (hstart : (scaleLayout hashers account).Blank start) (xs : List (Extrinsic A))
    (hfits : ∀ x ∈ xs, (scaleLayout hashers account).FitsCall x.call) (hlen : xs.length < 2 ^ 32)
    (domain ip : Text) (hdomain : (lib.bytes (some domain)).length < 2 ^ 32)
    (hip : (lib.bytes (some ip)).length < 2 ^ 32) :
    let node := (Raw.after (scaleLayout hashers account) env start xs).store.find?
    let s := runFromEmpty env xs
    let stored := s.certificateMap.find? (lib.bytes (some domain))
    let c := stored.getD default
    lookupDb lib node domain = some {
        name := sub.text c.name
        ipAddr := sub.text c.ipAddr
        info := sub.text c.info
        publicKey := sub.text c.key
        tip := none
        domainExists := stored.isSome } ∧
      reverseLookup lib node ip =
        some ((ipToCertificates s (lib.bytes (some ip))).map (cardFor sub)) := by
  have h := hstart.related_after env hfits (Nat.le_pred_of_lt hlen)
  have hwf := wellFormed_run env xs
  generalize Raw.after (scaleLayout hashers account) env start xs = raw at h
  generalize runFromEmpty env xs = s at h hwf
  refine ⟨?_, ?_⟩
  · have hc : (certificateCode account).Fits
        ((s.certificateMap.find? (lib.bytes (some domain))).getD default) := h.fits_get _
    have hstored : raw.store.find? ((certificateItem hashers account).key
        (lib.bytes (some domain))) = _ := h.forward.stored _ (PrefixCode.fits_bytes.mpr hdomain)
    have hread : lib.decodeStruct certificateTypes ((raw.store.find?
        ((certificateItem hashers account).key (lib.bytes (some domain)))).getD
          ((certificateCode account).encode default)) = some (jsonOf sub
            ((s.certificateMap.find? (lib.bytes (some domain))).getD default), []) := by
      rw [hstored]
      exact (congrArg _ (Option.getD_map _ _ _)).trans (hlib.decodeStruct_jsonOf_nil sub hc)
    have hexists : (!isVersionZero (jsonOf sub ((s.certificateMap.find?
        (lib.bytes (some domain))).getD default))) =
          (s.certificateMap.find? (lib.bytes (some domain))).isSome := by
      have hversion := hwf.version_eq_zero_iff (lib.bytes (some domain))
      rw [Bool.eq_iff_iff, isVersionZero_jsonOf, Bool.not_eq_true', decide_eq_false_iff_not,
        Option.isSome_iff_ne_none]
      exact not_congr hversion
    rw [lookupDb, hlib.query_certificateMap hread, Option.map_some, dbOf, hexists]
    rfl
  · have hbucket : (certificateCode account).vec.Fits
        (ipToCertificates s (lib.bytes (some ip))) :=
      ⟨(h.room _).trans_lt hlen, h.fits_bucket _⟩
    have hstored : raw.store.find? ((reverseItem hashers account).key (lib.bytes (some ip))) = _ :=
      h.reverse.stored _ (PrefixCode.fits_bytes.mpr hip)
    have hread : lib.decodeVec certificateTypes ((raw.store.find?
        ((reverseItem hashers account).key (lib.bytes (some ip)))).getD
          ((certificateCode account).vec.encode [])) =
        some ((ipToCertificates s (lib.bytes (some ip))).map (jsonOf sub), []) := by
      rw [hstored]
      exact (congrArg _ (Option.getD_map _ _ _)).trans (hlib.decodeVec_jsonOf sub hbucket)
    have hversion : ∀ c ∈ ipToCertificates s (lib.bytes (some ip)),
        c.versionNumber = certificateVersion := fun c hc => (hwf.reverse _ c hc).2.1
    rw [reverseLookup, hlib.query_reverseMap hread, Option.map_some,
      cardsOf_jsonOf sub hversion]

end

/-! ## A concrete library -/

section

variable (account : Codec A) (sub : Substrate)

def plainDecodeStructs (types : List (String × String)) :
    Nat → Bytes → Option (List (Dict A) × Bytes)
  | 0, bs => some ([], bs)
  | n + 1, bs =>
    ((plainReader account sub).decodeStruct types bs).bind fun p =>
      (plainDecodeStructs types n p.2).map fun q => (p.1 :: q.1, q.2)

def plainDecodeVec (types : List (String × String)) (bs : Bytes) :
    Option (List (Dict A) × Bytes) :=
  (decodeCompact bs).bind fun p => plainDecodeStructs account sub types p.1 p.2

theorem plainDecodeStructs_flatMap {types : List (String × String)}
    {items : List (Bytes × Dict A)} (hitems : ∀ item ∈ items, ∀ rest,
      (plainReader account sub).decodeStruct types (item.1 ++ rest) = some (item.2, rest))
    (rest : Bytes) :
    plainDecodeStructs account sub types items.length (items.flatMap Prod.fst ++ rest) =
      some (items.map Prod.snd, rest) := by
  induction items with
  | nil => rfl
  | cons item items ih =>
    obtain ⟨hitem, hitems⟩ := List.forall_mem_cons.mp hitems
    rw [List.length_cons, plainDecodeStructs, List.flatMap_cons, List.append_assoc, hitem,
      Option.bind_some, ih hitems, Option.map_some, List.map_cons]

variable [Inhabited A] (hashers : Hashers)

def plainPolkadotJs : PolkadotJs A where
  __ := plainApi
  __ := plainReader account sub
  decodeVec := plainDecodeVec account sub
  certificateMap types node domain :=
    let key := (certificateItem hashers account).key (plainApi.bytes (some domain))
    let bs := (node key).getD ((certificateCode account).encode default)
    ((plainReader account sub).decodeStruct types bs).map Prod.fst
  reverseMap types node ip :=
    let key := (reverseItem hashers account).key (plainApi.bytes (some ip))
    let bs := (node key).getD ((certificateCode account).vec.encode [])
    (plainDecodeVec account sub types bs).map Prod.fst

theorem documented_plainPolkadotJs :
    (plainPolkadotJs account sub hashers).Documented hashers account sub where
  reads := reads_plainReader account sub (.inr rfl)
  vec {types items} hlen hitems := by
    have hlength := decodeCompact_encodeCompact hlen (items.flatMap Prod.fst)
    have hread := plainDecodeStructs_flatMap account sub hitems []
    rw [List.append_nil] at hread
    change plainDecodeVec account sub types _ = _
    rw [plainDecodeVec, hlength, Option.bind_some, hread]
  query_certificateMap hread := congrArg (Option.map Prod.fst) hread
  query_reverseMap hread := congrArg (Option.map Prod.fst) hread

end

/-- The form after one registration: the domain is found, and so is its card under the address. -/
theorem lookups_shown_ab :
    let lib := plainPolkadotJs (.bytes 32) Proxy.plainSubstrate chainHashers
    let node := (Raw.after chainLayout asciiEnv .empty [registerOnes]).store.find?
    lookupDb lib node "ab.cd".toList =
        some ⟨some "A".toList, some "1.1.1.1".toList, some "\x7b\x7d".toList, some "AB".toList,
          none, true⟩ ∧
      reverseLookup lib node "1.1.1.1".toList =
        some [⟨some "ab.cd".toList, some "A".toList, some "1.1.1.1".toList,
          some "\x7b\x7d".toList, some "AB".toList⟩] := by
  have hbytes : ∀ text : String, (plainPolkadotJs (.bytes 32) Proxy.plainSubstrate
      chainHashers).bytes (some text.toList) = asBytes text := utf8Bytes_toList
  obtain ⟨hdb, hcards⟩ := lookups_shown Proxy.plainSubstrate
    (documented_plainPolkadotJs (.bytes 32) Proxy.plainSubstrate chainHashers) asciiEnv .empty
    ⟨fun _ => rfl, fun _ => rfl⟩ [registerOnes] fits_registerOnes (by decide) "ab.cd".toList
    "1.1.1.1".toList (by rw [hbytes]; decide +kernel) (by rw [hbytes]; decide +kernel)
  have hbucket : ipToCertificates (runFromEmpty asciiEnv [registerOnes]) (asBytes "1.1.1.1") =
      [newCert ones (asBytes "A") (asBytes "ab.cd") (asBytes "1.1.1.1") (asBytes "\x7b\x7d")
        (asBytes "AB")] := by
    rw [registerOnes, runFromEmpty_register ones fieldError_ab]
    exact StorageMap.get_insert_self _ _ _
  have hfind := find?_of_register ones fieldError_ab
  dsimp only at hdb hcards ⊢
  rw [chainLayout, hdb, hcards, hbytes, hbytes, hbucket, registerOnes, hfind]
  refine ⟨?_, ?_⟩
  · simp only [Option.getD_some, Option.isSome_some, newCert,
      Proxy.plainSubstrate.text_of_utf8 (fromUtf8_asBytes _)]
  · simp only [List.map_cons, List.map_nil, cardFor, newCert,
      Proxy.plainSubstrate.text_of_utf8 (fromUtf8_asBytes _)]

end Siip.Ui
