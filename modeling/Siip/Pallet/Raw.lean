/-
  The pallet over the store of the chain.

  Where the model keeps two maps, the chain keeps byte strings. A `Layout` says under which keys it
  keeps the entries of the maps and how it writes them. The same dispatchables that run on the maps
  run on the store, through the operations of the layout: from a store without entries of the pallet
  they return the same and leave the store of the maps, and nothing else in the store changes
  (`store_refines`).

  The layout of the chain is `scaleLayout`. `decl_storage!` puts the entry of a key under the hashed
  names of the pallet and of the storage item and the hashed key, which the key itself follows. Keys
  and values are written in SCALE. A vector can be written when it has fewer than 2^32 elements; the
  arguments of an extrinsic, which are read in SCALE, have no more.
-/
import Siip.Lib.TypedStore
import Siip.Lib.Relational
import Siip.Pallet.Dispatch

namespace Siip.Pallet

open Lib

variable {A : Type}

/-! ## Layouts -/

/-- How the two maps lie in a store of byte strings. `FitsArg` says which arguments of a call can be
    written, and `capacity` how many certificates in one list. -/
structure Layout (A : Type) where
  certificates : MapItem Bytes (Certificate A)
  reverse : MapItem Bytes (List (Certificate A))
  disjoint : certificates.Disjoint reverse
  FitsArg : Bytes → Prop
  capacity : Nat
  fits_nil : FitsArg []
  fits_domain : ∀ {domain}, FitsArg domain → certificates.FitsKey domain
  fits_ip : ∀ {ip}, FitsArg ip → reverse.FitsKey ip
  fits_certificate : ∀ {c : Certificate A}, certificates.value.Fits c ↔
    FitsArg c.name ∧ FitsArg c.info ∧ FitsArg c.key ∧ FitsArg c.ipAddr ∧ FitsArg c.domain
  fits_bucket : ∀ {certs : List (Certificate A)}, reverse.value.Fits certs ↔
    certs.length ≤ capacity ∧ ∀ c ∈ certs, certificates.value.Fits c

namespace Raw

structure Storage (A : Type) where
  store : ByteStore
  events : List (Event A)

def mapOps {V : Type} [Inhabited V] (item : MapItem Bytes V) : MapOps (Storage A) Bytes V where
  containsKey s := item.containsKey s.store
  get s := item.get s.store
  insert s k v := { s with store := item.insert s.store k v }
  take s k := ((item.take s.store k).1, { s with store := (item.take s.store k).2 })

variable [Inhabited A] (layout : Layout A)

/-- The storage of the pallet in a store of byte strings. -/
def store : Store (Storage A) A where
  certificateMap := mapOps layout.certificates
  reverseMap := mapOps layout.reverse
  depositEvent e s := { s with events := s.events ++ [e] }

variable [DecidableEq A]

def result (env : Env) (s : Storage A) (x : Extrinsic A) : Except DispatchError Unit :=
  (runFrom ((store layout).dispatch env x) s).1

def step (env : Env) (s : Storage A) (x : Extrinsic A) : Storage A :=
  (runFrom ((store layout).dispatch env x) s).2

end Raw

/-! ## One operation -/

/-- The store and the maps after `n` extrinsics, from a store `start` without entries. -/
structure Related (layout : Layout A) (start : ByteStore) (n : Nat) (raw : Raw.Storage A)
    (s : Storage A) : Prop where
  forward : layout.certificates.Represents raw.store s.certificateMap
  reverse : layout.reverse.Represents raw.store s.reverseMap
  events : raw.events = s.events
  room : ∀ ip, (s.reverseMap.get ip).length ≤ n
  frame : ∀ x, (∀ d, layout.certificates.key d ≠ x) → (∀ ip, layout.reverse.key ip ≠ x) →
    raw.store.find? x = start.find? x

section

variable {layout : Layout A} {start : ByteStore} {n : Nat} {raw : Raw.Storage A} {s : Storage A}

theorem Related.mono (h : Related layout start n raw s) : Related layout start (n + 1) raw s :=
  { h with room := fun ip => (h.room ip).trans (Nat.le_succ n) }

theorem Related.insert (h : Related layout start n raw s) {d : Bytes} {cert : Certificate A}
    (hd : layout.FitsArg d) (hcert : layout.certificates.value.Fits cert) :
    Related layout start n { raw with store := layout.certificates.insert raw.store d cert }
      { s with certificateMap := s.certificateMap.insert d cert } where
  forward := h.forward.insert (layout.fits_domain hd) hcert
  reverse := h.reverse.of_eq fun ip =>
    StorageMap.find?_insert_of_ne _ _ (layout.disjoint d ip).symm
  events := h.events
  room := h.room
  frame x hx hx' := (StorageMap.find?_insert_of_ne _ _ (hx d).symm).trans (h.frame x hx hx')

theorem Related.remove (h : Related layout start n raw s) {d : Bytes} (hd : layout.FitsArg d) :
    Related layout start n { raw with store := raw.store.remove (layout.certificates.key d) }
      { s with certificateMap := s.certificateMap.remove d } where
  forward := h.forward.remove (layout.fits_domain hd)
  reverse := h.reverse.of_eq fun ip =>
    StorageMap.find?_remove_of_ne _ (layout.disjoint d ip).symm
  events := h.events
  room := h.room
  frame x hx hx' := (StorageMap.find?_remove_of_ne _ (hx d).symm).trans (h.frame x hx hx')

theorem Related.insertReverse (h : Related layout start n raw s) {ip : Bytes}
    {certs : List (Certificate A)} (hip : layout.FitsArg ip) (hlen : certs.length ≤ n + 1)
    (hn : n < layout.capacity) (hcerts : ∀ c ∈ certs, layout.certificates.value.Fits c) :
    Related layout start (n + 1)
      { raw with store := layout.reverse.insert raw.store ip certs }
      { s with reverseMap := s.reverseMap.insert ip certs } where
  forward := h.forward.of_eq fun d => StorageMap.find?_insert_of_ne _ _ (layout.disjoint d ip)
  reverse := h.reverse.insert (layout.fits_ip hip) (layout.fits_bucket.mpr ⟨hlen.trans hn, hcerts⟩)
  events := h.events
  room ip' := by
    by_cases heq : ip' = ip
    · rw [heq, StorageMap.get_insert_self]
      exact hlen
    · rw [StorageMap.get_insert_of_ne _ _ heq]
      exact (h.room ip').trans (Nat.le_succ n)
  frame x hx hx' := (StorageMap.find?_insert_of_ne _ _ (hx' ip).symm).trans (h.frame x hx hx')

theorem Related.removeReverse (h : Related layout start n raw s) {ip : Bytes}
    (hip : layout.FitsArg ip) :
    Related layout start n { raw with store := raw.store.remove (layout.reverse.key ip) }
      { s with reverseMap := s.reverseMap.remove ip } where
  forward := h.forward.of_eq fun d => StorageMap.find?_remove_of_ne _ (layout.disjoint d ip)
  reverse := h.reverse.remove (layout.fits_ip hip)
  events := h.events
  room ip' := by
    by_cases heq : ip' = ip
    · rw [heq, StorageMap.get, StorageMap.find?_remove_self]
      exact Nat.zero_le n
    · rw [StorageMap.get, StorageMap.find?_remove_of_ne _ heq]
      exact h.room ip'
  frame x hx hx' := (StorageMap.find?_remove_of_ne _ (hx' ip).symm).trans (h.frame x hx hx')

theorem Related.fits_get [Inhabited A] (h : Related layout start n raw s) (d : Bytes) :
    layout.certificates.value.Fits (s.certificateMap.get d) := by
  cases hd : s.certificateMap.find? d with
  | none =>
    have hnil := layout.fits_nil
    rw [StorageMap.get_of_find?_none hd]
    exact layout.fits_certificate.mpr ⟨hnil, hnil, hnil, hnil, hnil⟩
  | some c =>
    rw [StorageMap.get_of_find? hd]
    exact h.forward.fits d c hd

theorem Related.fits_bucket (h : Related layout start n raw s) (ip : Bytes) :
    ∀ c ∈ s.reverseMap.get ip, layout.certificates.value.Fits c := by
  cases hip : s.reverseMap.find? ip with
  | none =>
    rw [StorageMap.get_of_find?_none hip]
    exact fun c hc => absurd hc (by simp [default])
  | some certs =>
    rw [StorageMap.get_of_find? hip]
    exact (layout.fits_bucket.mp (h.reverse.fits ip certs hip)).2

end

/-! ## What does not touch the storage -/

section

variable {σ σ' : Type} {R : σ → σ' → Prop} {s : σ} {s' : σ'} (h : R s s')

include h

theorem agrees_ensure {cond cond' : Bool} (hcond : cond = cond') (e : Error) :
    Agrees R (ensure cond e) (ensure cond' e) s s' := by
  subst hcond
  cases cond with
  | false => exact agrees_throw h _
  | true => exact agrees_pure h _

theorem agrees_ensureSigned (o : Origin A) :
    Agrees R (ensureSigned o) (ensureSigned o) s s' := by
  cases o with
  | signed who => exact agrees_pure h who
  | root => exact agrees_throw h _
  | none => exact agrees_throw h _

theorem agrees_ensureFields (env : Env) (name domain ipAddr info key : Bytes) :
    Agrees R (ensureFields env name domain ipAddr info key)
      (ensureFields env name domain ipAddr info key) s s' := by
  refine (agrees_ensure h rfl _).bind (fun _ _ h => h) fun _ s s' h => ?_
  refine (agrees_ensure h rfl _).bind (fun _ _ h => h) fun _ s s' h => ?_
  refine (agrees_ensure h rfl _).bind (fun _ _ h => h) fun _ s s' h => ?_
  refine (agrees_ensure h rfl _).bind (fun _ _ h => h) fun _ s s' h => ?_
  exact agrees_ensure h rfl _

end

/-! ## The dispatchables in lockstep -/

/-- The arguments of a call. -/
def Call.args : Call → List Bytes
  | .registerCertificate n d ip i k => [n, d, ip, i, k]
  | .modifyCertificate n d ip i k => [n, d, ip, i, k]
  | .removeCertificate d => [d]

/-- The arguments can be written. -/
def Layout.FitsCall (layout : Layout A) (call : Call) : Prop :=
  ∀ arg ∈ call.args, layout.FitsArg arg

section

variable [Inhabited A] {layout : Layout A} {start : ByteStore} {n : Nat} {raw : Raw.Storage A}
  {s : Storage A}

/-- The last part of the three dispatchables: a bucket is taken out, put back changed, and the event
    deposited. -/
theorem Related.agrees_rewrite (h : Related layout start n raw s) (hn : n < layout.capacity)
    {ip : Bytes} (hip : layout.FitsArg ip) (change : List (Certificate A) → List (Certificate A))
    (hlen : ∀ certs, (change certs).length ≤ certs.length + 1)
    (hfits : ∀ certs, (∀ c ∈ certs, layout.certificates.value.Fits c) →
      ∀ c ∈ change certs, layout.certificates.value.Fits c) (e : Event A) :
    let rewrite {σ : Type} (store : Store σ A) : Dispatch σ Unit := do
      let certs ← modifyGet fun s => store.reverseMap.take s ip
      modify fun s => store.reverseMap.insert s ip (change certs)
      modify (store.depositEvent e)
    Agrees (Related layout start (n + 1)) (rewrite (Raw.store layout)) (rewrite Storage.store)
      raw s := by
  have hroom : (change (s.reverseMap.get ip)).length ≤ n + 1 :=
    (hlen _).trans (Nat.succ_le_succ (h.room ip))
  have hrelated := (h.removeReverse hip).insertReverse hip hroom hn (hfits _ (h.fits_bucket ip))
  have hget : layout.reverse.get raw.store ip = s.reverseMap.get ip :=
    h.reverse.get_eq (layout.fits_ip hip)
  refine Agrees.modifyGet_bind hget (Agrees.modify_bind ?_)
  refine agrees_modify ?_
  change Related layout start (n + 1)
    { raw with
      store := layout.reverse.insert (raw.store.remove (layout.reverse.key ip)) ip
        (change (layout.reverse.get raw.store ip))
      events := raw.events ++ [e] }
    { s with
      reverseMap := (s.reverseMap.remove ip).insert ip (change (layout.reverse.get raw.store ip))
      events := s.events ++ [e] }
  rw [hget]
  exact { hrelated with events := congrArg (· ++ [e]) h.events }

theorem Related.containsKey_eq (h : Related layout start n raw s) {d : Bytes}
    (hd : layout.FitsArg d) :
    (Raw.store layout).certificateMap.containsKey raw d =
      Storage.store.certificateMap.containsKey s d :=
  h.forward.containsKey_eq (layout.fits_domain hd)

theorem Related.get_eq (h : Related layout start n raw s) {d : Bytes} (hd : layout.FitsArg d) :
    (Raw.store layout).certificateMap.get raw d = Storage.store.certificateMap.get s d :=
  h.forward.get_eq (layout.fits_domain hd)

theorem Related.agrees_registerCertificate (h : Related layout start n raw s)
    (hn : n < layout.capacity) (env : Env) (o : Origin A) {name d ip i k : Bytes}
    (hfits : layout.FitsCall (.registerCertificate name d ip i k)) :
    Agrees (Related layout start (n + 1))
      ((Raw.store layout).registerCertificate env o name d ip i k)
      (Storage.store.registerCertificate env o name d ip i k) raw s := by
  simp only [Layout.FitsCall, Call.args, List.forall_mem_cons, List.not_mem_nil, false_implies,
    implies_true, and_true] at hfits
  obtain ⟨hname, hd, hip, hi, hk⟩ := hfits
  unfold Store.registerCertificate
  refine (agrees_ensureSigned h o).bind (fun _ _ h => h.mono) fun who raw s h => ?_
  obtain ⟨cert, hnew⟩ : ∃ cert, (⟨certificateVersion, who, name, i, k, ip, d⟩ : Certificate A) =
    cert := ⟨_, rfl⟩
  have hcert : layout.certificates.value.Fits cert :=
    hnew ▸ layout.fits_certificate.mpr ⟨hname, hi, hk, hip, hd⟩
  rw [hnew]
  refine (agrees_ensureFields h env _ _ _ _ _).bind (fun _ _ h => h.mono) fun _ raw s h => ?_
  refine Agrees.get_bind ?_
  have hfresh := congrArg not (h.containsKey_eq hd)
  refine (agrees_ensure h hfresh _).bind (fun _ _ h => h.mono) fun _ raw s h => ?_
  refine Agrees.modify_bind ?_
  refine (h.insert hd hcert).agrees_rewrite hn hip (· ++ [cert]) (fun certs => by simp)
    (fun certs hcerts => ?_) _
  exact List.forall_mem_append.mpr ⟨hcerts, List.forall_mem_singleton.mpr hcert⟩

variable [DecidableEq A]

theorem Related.agrees_modifyCertificate (h : Related layout start n raw s)
    (hn : n < layout.capacity) (env : Env) (o : Origin A) {name d ip i k : Bytes}
    (hfits : layout.FitsCall (.modifyCertificate name d ip i k)) :
    Agrees (Related layout start (n + 1))
      ((Raw.store layout).modifyCertificate env o name d ip i k)
      (Storage.store.modifyCertificate env o name d ip i k) raw s := by
  simp only [Layout.FitsCall, Call.args, List.forall_mem_cons, List.not_mem_nil, false_implies,
    implies_true, and_true] at hfits
  obtain ⟨hname, hd, hip, hi, hk⟩ := hfits
  unfold Store.modifyCertificate
  refine (agrees_ensureSigned h o).bind (fun _ _ h => h.mono) fun who raw s h => ?_
  obtain ⟨cert, hnew⟩ : ∃ cert, (⟨certificateVersion, who, name, i, k, ip, d⟩ : Certificate A) =
    cert := ⟨_, rfl⟩
  have hcert : layout.certificates.value.Fits cert :=
    hnew ▸ layout.fits_certificate.mpr ⟨hname, hi, hk, hip, hd⟩
  rw [hnew]
  refine (agrees_ensureFields h env _ _ _ _ _).bind (fun _ _ h => h.mono) fun _ raw s h => ?_
  refine Agrees.get_bind ?_
  refine (agrees_ensure h (h.containsKey_eq hd) _).bind (fun _ _ h => h.mono) fun _ raw s h => ?_
  refine Agrees.get_bind ?_
  rw [h.get_eq hd]
  refine (agrees_ensure h rfl _).bind (fun _ _ h => h.mono) fun _ raw s h => ?_
  refine (agrees_ensure h rfl _).bind (fun _ _ h => h.mono) fun _ raw s h => ?_
  refine Agrees.modifyGet_bind (h.get_eq hd) (Agrees.modify_bind ?_)
  refine ((h.remove hd).insert hd hcert).agrees_rewrite hn hip
    (fun certs => retain Certificate.domain d certs ++ [cert]) (fun certs => ?_)
    (fun certs hcerts => ?_) _
  · rw [List.length_append]
    exact Nat.succ_le_succ (List.length_filter_le _ _)
  · refine List.forall_mem_append.mpr ⟨?_, List.forall_mem_singleton.mpr hcert⟩
    exact fun c hc => hcerts c (mem_retain.mp hc).1

theorem Related.agrees_removeCertificate (h : Related layout start n raw s)
    (hn : n < layout.capacity) (env : Env) (o : Origin A) {d : Bytes}
    (hfits : layout.FitsCall (.removeCertificate d)) :
    Agrees (Related layout start (n + 1)) ((Raw.store layout).removeCertificate env o d)
      (Storage.store.removeCertificate env o d) raw s := by
  have hd : layout.FitsArg d := hfits d (by simp [Call.args])
  unfold Store.removeCertificate
  refine (agrees_ensureSigned h o).bind (fun _ _ h => h.mono) fun who raw s h => ?_
  refine (agrees_ensure h rfl _).bind (fun _ _ h => h.mono) fun _ raw s h => ?_
  refine Agrees.get_bind ?_
  refine (agrees_ensure h (h.containsKey_eq hd) _).bind (fun _ _ h => h.mono) fun _ raw s h => ?_
  refine Agrees.get_bind ?_
  rw [h.get_eq hd]
  obtain ⟨-, -, -, hip, -⟩ := layout.fits_certificate.mp (h.fits_get d)
  refine (agrees_ensure h rfl _).bind (fun _ _ h => h.mono) fun _ raw s h => ?_
  refine Agrees.modifyGet_bind (h.get_eq hd) ?_
  refine (h.remove hd).agrees_rewrite hn hip (retain Certificate.domain d) (fun certs => ?_)
    (fun certs hcerts => ?_) _
  · exact (List.length_filter_le _ _).trans (Nat.le_succ _)
  · exact fun c hc => hcerts c (mem_retain.mp hc).1

theorem Related.agrees_dispatch (h : Related layout start n raw s) (hn : n < layout.capacity)
    (env : Env) {x : Extrinsic A} (hfits : layout.FitsCall x.call) :
    Agrees (Related layout start (n + 1)) ((Raw.store layout).dispatch env x)
      (Storage.store.dispatch env x) raw s := by
  obtain ⟨o, call⟩ := x
  cases call with
  | registerCertificate name d ip i k => exact h.agrees_registerCertificate hn env o hfits
  | modifyCertificate name d ip i k => exact h.agrees_modifyCertificate hn env o hfits
  | removeCertificate d => exact h.agrees_removeCertificate hn env o hfits

end

/-! ## Runs -/

/-- A store that holds no entry of the pallet. -/
structure Layout.Blank (layout : Layout A) (start : ByteStore) : Prop where
  forward : ∀ d, start.find? (layout.certificates.key d) = none
  reverse : ∀ ip, start.find? (layout.reverse.key ip) = none

theorem Layout.Blank.related {layout : Layout A} {start : ByteStore} (h : layout.Blank start) :
    Related layout start 0 ⟨start, []⟩ Storage.empty where
  forward := ⟨fun d _ => h.forward d, fun d c hc => absurd hc (by simp [Storage.empty])⟩
  reverse := ⟨fun ip _ => h.reverse ip, fun ip cs hcs => absurd hcs (by simp [Storage.empty])⟩
  events := rfl
  room _ := Nat.le_refl 0
  frame _ _ _ := rfl

section

variable [Inhabited A] [DecidableEq A]

/-- The store and the events after `xs`, from the store `start`. -/
def Raw.after (layout : Layout A) (env : Env) (start : ByteStore) (xs : List (Extrinsic A)) :
    Raw.Storage A :=
  run (Raw.step layout env) ⟨start, []⟩ xs

theorem Layout.Blank.related_after {layout : Layout A} {start : ByteStore} (h : layout.Blank start)
    (env : Env) {xs : List (Extrinsic A)} (hfits : ∀ x ∈ xs, layout.FitsCall x.call)
    (hlen : xs.length ≤ layout.capacity) :
    Related layout start xs.length (Raw.after layout env start xs) (runFromEmpty env xs) := by
  induction xs using List.reverseRecOn with
  | nil => exact h.related
  | append_singleton xs x ih =>
    rw [List.forall_mem_append, List.forall_mem_singleton] at hfits
    rw [List.length_append, List.length_singleton] at hlen ⊢
    have hrelated := ih hfits.1 (by omega)
    rw [Raw.after, runFromEmpty, run_concat, run_concat]
    exact (hrelated.agrees_dispatch hlen env hfits.2).related

/-- Extrinsics do on the store of a chain what they do on the maps of the model: the store holds
    the encodings of the entries and no others, the events and the results are the same, and what
    is kept under keys of no entry stays as it was. -/
theorem store_refines (layout : Layout A) (env : Env) (start : ByteStore)
    (hstart : layout.Blank start) (xs : List (Extrinsic A))
    (hfits : ∀ x ∈ xs, layout.FitsCall x.call) (hlen : xs.length < layout.capacity) :
    let raw := Raw.after layout env start xs
    let s := runFromEmpty env xs
    (∀ d, layout.certificates.FitsKey d → raw.store.find? (layout.certificates.key d) =
        (s.certificateMap.find? d).map layout.certificates.value.encode) ∧
      (∀ ip, layout.reverse.FitsKey ip → raw.store.find? (layout.reverse.key ip) =
        (s.reverseMap.find? ip).map layout.reverse.value.encode) ∧
      (∀ bs, (∀ d, layout.certificates.key d ≠ bs) → (∀ ip, layout.reverse.key ip ≠ bs) →
        raw.store.find? bs = start.find? bs) ∧
      raw.events = s.events ∧
      ∀ x : Extrinsic A, layout.FitsCall x.call →
        Raw.result layout env raw x = result env s x := by
  have h := hstart.related_after env hfits hlen.le
  refine ⟨h.forward.stored, h.reverse.stored, h.frame, h.events, fun x hx => ?_⟩
  exact (h.agrees_dispatch hlen env hx).returned

end

/-! ## Certificates in SCALE -/

/-- `i32` -/
def i32Code : PrefixCode Int32 :=
  (Codec.leWord 4).toPrefixCode.iso Int32.ofBitVec Int32.toBitVec (fun _ => rfl) (fun _ => rfl)

/-- The fields of a certificate in the order of the struct. -/
def certificateCode (account : Codec A) : PrefixCode (Certificate A) :=
  (i32Code.prod (account.toPrefixCode.prod (PrefixCode.bytes.prod (PrefixCode.bytes.prod
    (PrefixCode.bytes.prod (PrefixCode.bytes.prod PrefixCode.bytes)))))).iso
    (fun f => ⟨f.1, f.2.1, f.2.2.1, f.2.2.2.1, f.2.2.2.2.1, f.2.2.2.2.2.1, f.2.2.2.2.2.2⟩)
    (fun c => (c.versionNumber, c.ownerId, c.name, c.info, c.key, c.ipAddr, c.domain))
    (fun _ => rfl) (fun _ => rfl)

theorem fits_certificateCode {account : Codec A} {c : Certificate A} :
    (certificateCode account).Fits c ↔ c.name.length < 2 ^ 32 ∧ c.info.length < 2 ^ 32 ∧
      c.key.length < 2 ^ 32 ∧ c.ipAddr.length < 2 ^ 32 ∧ c.domain.length < 2 ^ 32 := by
  simp only [← PrefixCode.fits_bytes]
  constructor
  · rintro ⟨-, -, h⟩
    exact h
  · exact fun h => ⟨trivial, trivial, h⟩

/-! ## The storage items -/

/-- The hash functions, which tell the two storage items apart. -/
structure Hashers where
  twox128 : Bytes → Vector UInt8 16
  blake2x128 : Bytes → Vector UInt8 16
  items_ne : twox128 (asBytes "CertificateMap") ≠ twox128 (asBytes "ReverseMap")

section

variable (hashers : Hashers) (account : Codec A)

/-- What the keys of a storage item of the pallet begin with. -/
def Hashers.itemPrefix (name : String) : Bytes :=
  (hashers.twox128 (asBytes "SiipModule")).toList ++ (hashers.twox128 (asBytes name)).toList

def certificateItem : MapItem Bytes (Certificate A) :=
  .hashed (hashers.itemPrefix "CertificateMap") hashers.blake2x128 .bytes (certificateCode account)

def reverseItem : MapItem Bytes (List (Certificate A)) :=
  .hashed (hashers.itemPrefix "ReverseMap") hashers.blake2x128 .bytes
    (certificateCode account).vec

theorem disjoint_items :
    (certificateItem hashers account).Disjoint (reverseItem hashers account) := by
  refine MapItem.disjoint_hashed ?_ ?_
  · simp [Hashers.itemPrefix]
  · exact fun h => hashers.items_ne (Vector.toList_inj.mp (List.append_cancel_left h))

/-- The layout of the chain. -/
def scaleLayout : Layout A where
  certificates := certificateItem hashers account
  reverse := reverseItem hashers account
  disjoint := disjoint_items hashers account
  FitsArg bs := bs.length < 2 ^ 32
  capacity := 2 ^ 32 - 1
  fits_nil := by decide
  fits_domain := PrefixCode.fits_bytes.mpr
  fits_ip := PrefixCode.fits_bytes.mpr
  fits_certificate := fits_certificateCode
  fits_bucket := by
    intro certs
    refine and_congr ?_ Iff.rfl
    exact Nat.lt_iff_le_pred (by decide)

end

/-! ## The hashes of a chain -/

/-- The hash functions at the names of the pallet and at two keys. -/
def chainHashers : Hashers where
  twox128 bs :=
    if bs = asBytes "CertificateMap" then
      #v[190, 1, 117, 188, 232, 76, 161, 13, 183, 132, 160, 44, 187, 161, 135, 98]
    else if bs = asBytes "ReverseMap" then
      #v[182, 211, 160, 245, 226, 229, 191, 77, 46, 237, 60, 224, 203, 174, 46, 131]
    else #v[93, 135, 52, 99, 131, 36, 128, 111, 34, 114, 90, 204, 4, 226, 27, 202]
  blake2x128 bs :=
    if bs = PrefixCode.bytes.encode (asBytes "ab.cd") then
      #v[121, 233, 83, 87, 193, 0, 249, 12, 20, 149, 188, 230, 245, 214, 89, 178]
    else #v[241, 195, 91, 109, 237, 141, 104, 198, 40, 171, 151, 84, 168, 73, 170, 111]
  items_ne := by decide +kernel

/-- The account of 32 ones. -/
def ones : Vector UInt8 32 := Vector.replicate 32 1

/-- It registers `ab.cd` at `1.1.1.1`. -/
def registerOnes : Extrinsic (Vector UInt8 32) :=
  ⟨.signed ones, .registerCertificate (asBytes "A") (asBytes "ab.cd") (asBytes "1.1.1.1")
    (asBytes "\x7b\x7d") (asBytes "AB")⟩

/-- The layout under these hashes, with accounts of 32 bytes. -/
def chainLayout : Layout (Vector UInt8 32) := scaleLayout chainHashers (.bytes 32)

theorem fits_registerOnes : ∀ x ∈ [registerOnes], chainLayout.FitsCall x.call := by
  rw [List.forall_mem_singleton]
  have hlen : ∀ arg ∈ registerOnes.call.args, arg.length < 2 ^ 32 := by decide +kernel
  exact hlen

/-- The bytes that are stored for `ab.cd`, and what the extrinsic returns a second time. -/
theorem store_refines_ab :
    let raw := Raw.after chainLayout asciiEnv .empty [registerOnes]
    raw.store.find? (chainLayout.certificates.key (asBytes "ab.cd")) =
        some ((certificateCode (.bytes 32)).encode (newCert ones (asBytes "A") (asBytes "ab.cd")
          (asBytes "1.1.1.1") (asBytes "\x7b\x7d") (asBytes "AB"))) ∧
      Raw.result chainLayout asciiEnv raw registerOnes =
        .error (.module .domainAlreadyTaken) := by
  obtain ⟨hstored, -, -, -, hresult⟩ := store_refines chainLayout asciiEnv .empty
    ⟨fun _ => rfl, fun _ => rfl⟩ [registerOnes] fits_registerOnes (by decide)
  have hkey : chainLayout.certificates.FitsKey (asBytes "ab.cd") :=
    PrefixCode.fits_bytes.mpr (by decide)
  have hfind := find?_of_register ones fieldError_ab
  dsimp only
  rw [hstored _ hkey, hresult _ (fits_registerOnes _ (List.mem_singleton_self _)), registerOnes,
    hfind, Option.map_some]
  exact ⟨rfl, result_of_taken ones fieldError_ab hfind⟩

end Siip.Pallet
