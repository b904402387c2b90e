import Explorer.Core.Der
import Explorer.Core.HashChain
import Explorer.Core.Sha256
import Explorer.Fabric.Complete

/-!
# `generateBlockHash` and the chain of the stored blocks

The hash of a block is SHA-256 over the DER encoding of its header, a
sequence of the number and the two hashes, which are hexadecimal texts and
are read into buffers first. The ledger links its blocks by this hash: the
header of each block carries the hash of the header before it. `blockhash`
is computed by the explorer and `prehash` is read from the block, so that
the rows of two neighbours show whether they belong together.

`asn1.js` follows DER for numbers below `2 ^ 31`, and `Buffer.from(text,
'hex')` stops at the first character that is no digit.

* `decodeHeader_encodeHeader`: the encoding loses nothing of a header.
* `stored_chain_linked`: stored neighbours are linked, in every run.
* `tip_determines_chain`: two explorers that show one hash for a block show
  the same blocks below it.
-/
namespace Explorer.Fabric

/-! ## The hash -/

/-- One digit, of either case. -/
def hexDigit (c : Char) : Option Nat := Hex.value c.toLower

/-- `Buffer.from(text, 'hex')`. -/
def bufferFromHex : List Char → List UInt8
  | high :: low :: rest =>
    match hexDigit high, hexDigit low with
    | some h, some l => UInt8.ofNat (16 * h + l) :: bufferFromHex rest
    | _, _ => []
  | _ => []

/-- `headerAsn.encode({ Number, PreviousHash, DataHash }, 'der')`.
mirrors app/platform/fabric/utils/FabricUtils.js:135-149 -/
def encodeHeader (header : Header) : List UInt8 :=
  Der.sequence [Der.integer header.number, Der.octetString (bufferFromHex header.previousHash.toList),
    Der.octetString (bufferFromHex header.dataHash.toList)]

/-- mirrors app/platform/fabric/utils/FabricUtils.js:134-151 -/
def generateBlockHash (header : Header) : String := Sha256.sha256 (encodeHeader header)

/-! ## Reading a header back -/

def decodeHeader (bytes : List UInt8) : Option Header := do
  let (content, _) ← Der.readTlv 0x30 bytes
  let (number, rest) ← Der.readInteger content
  let (previousHash, rest) ← Der.readOctetString rest
  let (dataHash, _) ← Der.readOctetString rest
  some ⟨number, Hex.encode previousHash, Hex.encode dataHash⟩

/-- A hash as the decoder of the SDK writes it. -/
def IsHash (text : String) : Prop := ∃ bytes : List UInt8, text = Hex.encode bytes ∧ bytes.length < 2 ^ 30

structure Header.WellFormed (header : Header) : Prop where
  number : header.number < 2 ^ 31
  previousHash : IsHash header.previousHash
  dataHash : IsHash header.dataHash

theorem hexDigit_digitChar {n : Nat} (h : n < 16) : hexDigit (Nat.digitChar n) = some n := by
  have hall : (List.range 16).all fun n => hexDigit (Nat.digitChar n) = some n := by decide +kernel
  exact of_decide_eq_true (List.all_eq_true.1 hall n (List.mem_range.2 h))

theorem bufferFromHex_digits (bytes : List UInt8) : bufferFromHex (Hex.digits bytes) = bytes := by
  induction bytes with
  | nil => rfl
  | cons byte bytes ih =>
    have hlt := byte.toNat_lt
    have hhigh := hexDigit_digitChar (n := byte.toNat / 16) (by omega)
    have hlow := hexDigit_digitChar (n := byte.toNat % 16) (by omega)
    have hdigits : Hex.digits (byte :: bytes) =
        Nat.digitChar (byte.toNat / 16) :: Nat.digitChar (byte.toNat % 16) :: Hex.digits bytes := rfl
    rw [hdigits, bufferFromHex, hhigh, hlow]
    simp only [Hex.byte_halves, ih]

theorem bufferFromHex_encode (bytes : List UInt8) : bufferFromHex (Hex.encode bytes).toList = bytes := by
  rw [Hex.encode, String.toList_ofList, bufferFromHex_digits]

/-- **The encoding loses nothing of a header.** -/
theorem decodeHeader_encodeHeader (header : Header) (h : header.WellFormed) :
    decodeHeader (encodeHeader header) = some header := by
  obtain ⟨number, previousHash, dataHash⟩ := header
  obtain ⟨hnumber, ⟨previous, hprevious, hp⟩, ⟨data, hdata, hd⟩⟩ := h
  simp only at hnumber hprevious hdata
  subst hprevious hdata
  have hi := Der.length_tlv_le 0x02 (Der.integerContent number)
    (by have := Der.length_integerContent_le (n := number) (k := 4) (by omega); omega)
  have hinteger := Der.length_integerContent_le (n := number) (k := 4) (by omega)
  have hpre := Der.length_tlv_le 0x04 previous (by omega)
  have hdat := Der.length_tlv_le 0x04 data (by omega)
  have hcontent : (Der.integer number ++ (Der.octetString previous ++ Der.octetString data)).length <
      256 ^ 127 := by
    unfold Der.integer Der.octetString
    rw [List.length_append, List.length_append]
    omega
  have hseq : encodeHeader ⟨number, Hex.encode previous, Hex.encode data⟩ =
      Der.tlv 0x30 (Der.integer number ++ (Der.octetString previous ++ Der.octetString data)) ++ [] := by
    simp [encodeHeader, Der.sequence, bufferFromHex_encode]
  have hlast : Der.readOctetString (Der.octetString data) = some (data, []) := by
    have := Der.readOctetString_octetString data (by omega) []
    rwa [List.append_nil] at this
  unfold decodeHeader
  rw [hseq, Der.readTlv_tlv hcontent]
  simp only [Option.bind_eq_bind, Option.bind_some]
  rw [Der.readInteger_integer (by omega)]
  simp only [Option.bind_some]
  rw [Der.readOctetString_octetString previous (by omega)]
  simp only [Option.bind_some, hlast]

theorem encodeHeader_inj {a b : Header} (ha : a.WellFormed) (hb : b.WellFormed)
    (h : encodeHeader a = encodeHeader b) : a = b := by
  have hd := decodeHeader_encodeHeader a ha
  rw [h, decodeHeader_encodeHeader b hb] at hd
  exact (Option.some.inj hd).symm

/-- The text of a digest is a hash. -/
theorem isHash_generateBlockHash (header : Header) : IsHash (generateBlockHash header) :=
  ⟨Sha256.digest (encodeHeader header), rfl, by rw [Sha256.length_digest]; decide⟩

/-! ## The stored chain -/

namespace SyncService

/-- The ledger: no block without the one before it, whose hash it carries. -/
structure HashLinked (L : Ledger) : Prop where
  wellFormed : ∀ channelName n block, L.block channelName n = some block → block.header.WellFormed
  linked : ∀ channelName n block, L.block channelName (n + 1) = some block →
    ∃ before, L.block channelName n = some before ∧
      block.header.previousHash = generateBlockHash before.header

/-- The SDK is the code of this module, on the headers for which `asn1.js`
follows DER. -/
def HashesBlocks (C : Client) : Prop :=
  ∀ header : Header, header.WellFormed → C.sdk.generateBlockHash header = generateBlockHash header

variable {C : Client} {L : Ledger}

/-- What a stored row shows of its block. -/
structure Shows (L : Ledger) (channelName : String) (r : BlockRow) (block : Block) : Prop where
  ledger : L.block channelName r.blocknum = some block
  datahash : r.datahash = block.header.dataHash
  prehash : r.prehash = block.header.previousHash
  blockhash : r.blockhash = generateBlockHash block.header

theorem shows_of_stored {db : Db} (hC : HashesBlocks C) (hL : HashLinked L) (h : Stored C L db) {channelName : String}
    {r : BlockRow} (hr : r ∈ db.blocks) (hnet : r.networkName = some C.networkName)
    (hch : C.getChannelGenHash channelName = some r.channelGenesisHash) :
    ∃ block, Shows L channelName r block := by
  obtain ⟨name, block, firstTx, hblock, -, hname, hrow⟩ := h.origin r hr hnet
  obtain rfl : name = channelName := C.distinct _ _ _ hname hch
  refine ⟨block, hblock, ?_, ?_, ?_⟩
  · rw [hrow]
    rfl
  · rw [hrow]
    rfl
  · rw [hrow, ← hC _ (hL.wellFormed _ _ _ hblock)]
    rfl

/-- **Stored neighbours are linked.** In every state that failures, crashes
and restarts can lead to: the row of a block shows as its previous hash what
the row of the block before it shows as its own, whenever both are stored and
in whatever order they were. -/
theorem stored_chain_linked (C : Client) (L : Ledger) (hC : HashesBlocks C) (hL : HashLinked L) (s : St)
    (hr : (lts C L (Fresh C)).Reachable s) (r r' : BlockRow) (hmem : r ∈ s.db.blocks)
    (hmem' : r' ∈ s.db.blocks) (hnet : r.networkName = some C.networkName)
    (hnet' : r'.networkName = some C.networkName) (hch : r'.channelGenesisHash = r.channelGenesisHash)
    (hnext : r'.blocknum = r.blocknum + 1) : r'.prehash = r.blockhash := by
  have h := ((inv_inductive fun _ hdb => hdb).reachable s hr).stored
  obtain ⟨channelName, block, -, hblock, -, hname, -⟩ := h.origin r hmem hnet
  obtain ⟨block, hs⟩ := shows_of_stored hC hL h hmem hnet hname
  obtain ⟨block', hs'⟩ := shows_of_stored hC hL h hmem' hnet' (hch ▸ hname)
  have hledger := hs'.ledger
  rw [hnext] at hledger
  obtain ⟨before, hbefore, hprevious⟩ := hL.linked _ _ _ hledger
  obtain rfl : block = before := Option.some.inj (hs.ledger.symm.trans hbefore)
  rw [hs'.prehash, hprevious, hs.blockhash]

/-! ### A channel with two blocks, for closed runs -/

/-- `mychannel` with the hash function of the code. -/
def hashing : Client := { mychannel with sdk := { mychannel.sdk with generateBlockHash := generateBlockHash } }

def genesisBlock : Block :=
  ⟨⟨0, "", Hex.encode (List.replicate 32 1)⟩, [transfer "t0"], [[0]]⟩

def secondBlock : Block :=
  ⟨⟨1, generateBlockHash genesisBlock.header, Hex.encode (List.replicate 32 2)⟩, [transfer "t1"], [[0]]⟩

def ledgerTwo : Ledger where
  block channelName n :=
    if channelName = "mychannel" then
      match n with
      | 0 => some genesisBlock
      | 1 => some secondBlock
      | _ => none
    else none
  number channelName n b h := by
    split at h
    · split at h <;> cases h <;> rfl
    · cases h
  channel channelName n b first h hfirst := by
    split at h
    · rename_i hname
      split at h <;> cases h <;> cases hfirst <;> exact hname.symm
    · cases h

theorem hashLinked_ledgerTwo : HashLinked ledgerTwo := by
  have hdata : ∀ b : UInt8, IsHash (Hex.encode (List.replicate 32 b)) := fun b => ⟨_, rfl, by simp⟩
  refine ⟨fun channelName n block h => ?_, fun channelName n block h => ?_⟩
  · simp only [ledgerTwo] at h
    split at h
    · split at h
      · cases h
        exact ⟨by decide, ⟨[], by decide +kernel, by simp⟩, hdata 1⟩
      · cases h
        exact ⟨by decide, isHash_generateBlockHash _, hdata 2⟩
      · cases h
    · cases h
  · simp only [ledgerTwo] at h ⊢
    split at h
    · rename_i hname
      split at h
      · rename_i h0
        cases h0
      · rename_i h1
        cases h
        obtain rfl : n = 0 := Nat.succ.inj h1
        exact ⟨genesisBlock, if_pos hname, rfl⟩
      · cases h
    · cases h

/-- Both blocks are caught up. -/
def catchUpTwo : List Ev :=
  [.synchBlocks "mychannel", .chainInfo 0 (some 2), .run 0, .queryBlock 0 true] ++
    List.replicate 9 (.run 0) ++ .queryBlock 0 true :: List.replicate 9 (.run 0)

def storedTwo : List BlockRow :=
  [{ blockRow hashing "genesis" genesisBlock (transfer "t0") with networkName := some "first-network" },
    { blockRow hashing "genesis" secondBlock (transfer "t1") with networkName := some "first-network" }]

theorem exec_catchUpTwo : ∃ s, LTS.exec (step hashing ledgerTwo) (init ⟨[], [], [], []⟩) catchUpTwo = some s ∧
    s.db.blocks = storedTwo := by
  have hrun : (LTS.exec (step hashing ledgerTwo) (init ⟨[], [], [], []⟩) catchUpTwo).map
      (fun s => s.db.blocks) = some storedTwo := by decide +kernel
  obtain ⟨s, hs, hblocks⟩ := Option.map_eq_some_iff.1 hrun
  exact ⟨s, hs, hblocks⟩

theorem stored_chain_linked_catchUpTwo :
    ∃ s, LTS.exec (step hashing ledgerTwo) (init ⟨[], [], [], []⟩) catchUpTwo = some s ∧
      ∀ r ∈ s.db.blocks, ∀ r' ∈ s.db.blocks, r.blocknum = 0 → r'.blocknum = 1 → r'.prehash = r.blockhash := by
  obtain ⟨s, hs, hblocks⟩ := exec_catchUpTwo
  have hfresh : Fresh hashing ⟨[], [], [], []⟩ := ⟨by simp, by simp⟩
  have hrows : ∀ r ∈ s.db.blocks, r.networkName = some "first-network" ∧ r.channelGenesisHash = "genesis" := by
    rw [hblocks]
    simp [storedTwo, blockRow]
  refine ⟨s, hs, fun r hr r' hr' h0 h1 => ?_⟩
  exact stored_chain_linked hashing ledgerTwo (fun _ _ => rfl) hashLinked_ledgerTwo s
    (LTS.reachable_of_exec ⟨_, hfresh, rfl⟩ hs) r r' hr hr' (hrows r hr).1 (hrows r' hr').1
    ((hrows r' hr').2.trans (hrows r hr).2.symm) (by rw [h0, h1])

/-- The headers of a channel by number. -/
def headers (L : Ledger) (channelName : String) (n : Nat) : Header :=
  match L.block channelName n with
  | some block => block.header
  | none => ⟨n, "", ""⟩

theorem headers_of_block {channelName : String} {n : Nat} {block : Block}
    (h : L.block channelName n = some block) : headers L channelName n = block.header := by
  unfold headers
  rw [h]

/-- Below a block there are no gaps. -/
theorem block_below (hL : HashLinked L) {channelName : String} {n : Nat} {block : Block}
    (h : L.block channelName n = some block) : ∀ k ≤ n, ∃ b, L.block channelName k = some b := by
  induction n generalizing block with
  | zero =>
    intro k hk
    rw [Nat.le_zero.1 hk]
    exact ⟨block, h⟩
  | succ n ih =>
    obtain ⟨before, hbefore, -⟩ := hL.linked _ _ _ h
    intro k hk
    rcases Nat.lt_succ_iff_lt_or_eq.1 (Nat.lt_succ_of_le hk) with hlt | rfl
    · exact ih hbefore k (Nat.le_of_lt_succ hlt)
    · exact ⟨block, h⟩

theorem headers_linked (hL : HashLinked L) {channelName : String} {n : Nat} {block : Block}
    (h : L.block channelName n = some block) :
    HashChain.Linked generateBlockHash Header.previousHash (headers L channelName) n := by
  intro k hk
  obtain ⟨b, hb⟩ := block_below hL h (k + 1) hk
  obtain ⟨before, hbefore, hprevious⟩ := hL.linked _ _ _ hb
  rw [headers_of_block hb, headers_of_block hbefore, hprevious]

/-- The two ledgers hold different headers of one number, at most `n`, whose
encodings have one SHA-256 digest. -/
def Collide (L₁ L₂ : Ledger) (name₁ name₂ : String) (n : Nat) : Prop :=
  ∃ k ≤ n, ∃ b₁ b₂, L₁.block name₁ k = some b₁ ∧ L₂.block name₂ k = some b₂ ∧
    encodeHeader b₁.header ≠ encodeHeader b₂.header ∧
    Sha256.sha256 (encodeHeader b₁.header) = Sha256.sha256 (encodeHeader b₂.header)

/-- **One hash for all blocks below.** Two explorers, each in a state that any
run can lead to: if the rows they have for block `n` of a channel show the
same hash, then so do their rows for every block up to `n`, with the same
previous hash and the same data hash; or else two headers of the ledgers
collide under SHA-256. -/
theorem tip_determines_chain (C₁ C₂ : Client) (L₁ L₂ : Ledger) (hC₁ : HashesBlocks C₁)
    (hC₂ : HashesBlocks C₂) (hL₁ : HashLinked L₁) (hL₂ : HashLinked L₂) (s₁ s₂ : St)
    (hr₁ : (lts C₁ L₁ (Fresh C₁)).Reachable s₁) (hr₂ : (lts C₂ L₂ (Fresh C₂)).Reachable s₂)
    (tip₁ tip₂ : BlockRow) (ht₁ : tip₁ ∈ s₁.db.blocks) (ht₂ : tip₂ ∈ s₂.db.blocks)
    (hn₁ : tip₁.networkName = some C₁.networkName) (hn₂ : tip₂.networkName = some C₂.networkName)
    (name₁ name₂ : String) (hname₁ : C₁.getChannelGenHash name₁ = some tip₁.channelGenesisHash)
    (hname₂ : C₂.getChannelGenHash name₂ = some tip₂.channelGenesisHash)
    (hnum : tip₁.blocknum = tip₂.blocknum) (hhash : tip₁.blockhash = tip₂.blockhash) :
    (∀ r₁ ∈ s₁.db.blocks, ∀ r₂ ∈ s₂.db.blocks, r₁.networkName = some C₁.networkName →
      r₂.networkName = some C₂.networkName → r₁.channelGenesisHash = tip₁.channelGenesisHash →
      r₂.channelGenesisHash = tip₂.channelGenesisHash → r₁.blocknum = r₂.blocknum →
      r₁.blocknum ≤ tip₁.blocknum →
        r₁.prehash = r₂.prehash ∧ r₁.datahash = r₂.datahash ∧ r₁.blockhash = r₂.blockhash) ∨
    Collide L₁ L₂ name₁ name₂ tip₁.blocknum := by
  have h₁ := ((inv_inductive fun _ hdb => hdb).reachable s₁ hr₁).stored
  have h₂ := ((inv_inductive fun _ hdb => hdb).reachable s₂ hr₂).stored
  obtain ⟨block₁, hs₁⟩ := shows_of_stored hC₁ hL₁ h₁ ht₁ hn₁ hname₁
  obtain ⟨block₂, hs₂⟩ := shows_of_stored hC₂ hL₂ h₂ ht₂ hn₂ hname₂
  have hledger₂ : L₂.block name₂ tip₁.blocknum = some block₂ := by
    rw [hnum]
    exact hs₂.ledger
  have htips : generateBlockHash (headers L₁ name₁ tip₁.blocknum) =
      generateBlockHash (headers L₂ name₂ tip₁.blocknum) := by
    rw [headers_of_block hs₁.ledger, headers_of_block hledger₂, ← hs₁.blockhash, ← hs₂.blockhash, hhash]
  rcases HashChain.agree_or_collision (headers_linked hL₁ hs₁.ledger) (headers_linked hL₂ hledger₂) htips
    with hagree | ⟨k, hk, hne, hcollide⟩
  · left
    intro r₁ hr₁ r₂ hr₂ hnet₁ hnet₂ hch₁ hch₂ hsame hle
    obtain ⟨b₁, hb₁⟩ := shows_of_stored hC₁ hL₁ h₁ hr₁ hnet₁ (hch₁ ▸ hname₁)
    obtain ⟨b₂, hb₂⟩ := shows_of_stored hC₂ hL₂ h₂ hr₂ hnet₂ (hch₂ ▸ hname₂)
    have heq : b₁.header = b₂.header := by
      rw [← headers_of_block hb₁.ledger, ← headers_of_block hb₂.ledger, ← hsame]
      exact hagree _ hle
    rw [hb₁.prehash, hb₂.prehash, hb₁.datahash, hb₂.datahash, hb₁.blockhash, hb₂.blockhash, heq]
    exact ⟨rfl, rfl, rfl⟩
  · right
    obtain ⟨c₁, hc₁⟩ := block_below hL₁ hs₁.ledger k hk
    obtain ⟨c₂, hc₂⟩ := block_below hL₂ hledger₂ k hk
    rw [headers_of_block hc₁, headers_of_block hc₂] at hne hcollide
    refine ⟨k, hk, c₁, c₂, hc₁, hc₂, fun he => hne ?_, hcollide⟩
    exact encodeHeader_inj (hL₁.wellFormed _ _ _ hc₁) (hL₂.wellFormed _ _ _ hc₂) he

theorem tip_determines_chain_catchUpTwo :
    ∃ s, LTS.exec (step hashing ledgerTwo) (init ⟨[], [], [], []⟩) catchUpTwo = some s ∧
      ((∀ r₁ ∈ s.db.blocks, ∀ r₂ ∈ s.db.blocks, r₁.blocknum = r₂.blocknum → r₁.blocknum ≤ 1 →
          r₁.datahash = r₂.datahash) ∨ Collide ledgerTwo ledgerTwo "mychannel" "mychannel" 1) := by
  obtain ⟨s, hs, hblocks⟩ := exec_catchUpTwo
  have hfresh : Fresh hashing ⟨[], [], [], []⟩ := ⟨by simp, by simp⟩
  have hr : (lts hashing ledgerTwo (Fresh hashing)).Reachable s := LTS.reachable_of_exec ⟨_, hfresh, rfl⟩ hs
  have hrows : ∀ r ∈ s.db.blocks, r.networkName = some "first-network" ∧ r.channelGenesisHash = "genesis" := by
    rw [hblocks]
    simp [storedTwo, blockRow]
  have htip : (storedTwo.getLast (by decide)) ∈ s.db.blocks := by
    rw [hblocks]
    exact List.getLast_mem _
  refine ⟨s, hs, ?_⟩
  rcases tip_determines_chain hashing hashing ledgerTwo ledgerTwo (fun _ _ => rfl) (fun _ _ => rfl)
    hashLinked_ledgerTwo hashLinked_ledgerTwo s s hr hr _ _ htip htip rfl rfl "mychannel" "mychannel" rfl rfl
    rfl rfl with hagree | hcollide
  · left
    intro r₁ hr₁ r₂ hr₂ hsame hle
    exact (hagree r₁ hr₁ r₂ hr₂ (hrows r₁ hr₁).1 (hrows r₂ hr₂).1 (hrows r₁ hr₁).2 (hrows r₂ hr₂).2 hsame
      hle).2.1
  · exact .inr hcollide

end SyncService

end Explorer.Fabric
