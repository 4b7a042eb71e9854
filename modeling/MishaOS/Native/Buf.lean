import MishaOS.Native.Addr
import MishaOS.Native.Word
import Mathlib.Logic.Function.Basic

/-!
# Network buffers

`buf.c` recycles buffers through a free list and asks the page allocator for
a new one when the list is empty.  The bytes a buffer shows are those between
its `start` and `end` pointers; putting a header in front prepends to them,
moving `start` or `end` inwards drops from them.  A header length that lies
moves `start` beyond `end`: `deficit` says by how many bytes.
-/

namespace MishaOS

/-- `net_buf_t`; `data` are the bytes from `start` to `end`. -/
structure NetBuf where
  link : Nat
  data : List Byte
  deficit : Nat
  refCount : Nat
  seq : BitVec 32
  flags : BitVec 32
deriving DecidableEq, Repr

/-- `end - start` as the code computes it. -/
def NetBuf.len32 (b : NetBuf) : BitVec 32 :=
  BitVec.ofNat 32 b.data.length - BitVec.ofNat 32 b.deficit

/-- `start += n` -/
def NetBuf.advance (b : NetBuf) (n : Nat) : NetBuf :=
  { b with data := b.data.drop n, deficit := b.deficit + (n - b.data.length) }

/-- `end -= n` -/
def NetBuf.trim (b : NetBuf) (n : Nat) : NetBuf :=
  { b with data := b.data.take (b.data.length - n), deficit := b.deficit + (n - b.data.length) }

/-- `net_buf_list`, `net_buf_alloc_count`, the memory of the buffers, and how
    many pages have been asked for. -/
structure BufPool where
  netBufList : Nat
  netBufAllocCount : Int
  buf : Nat → NetBuf
  requests : Nat

def BufPool.setBuf (b : BufPool) (p : Nat) (x : NetBuf) : BufPool :=
  { b with buf := Function.update b.buf p x }

@[simp] theorem BufPool.setBuf_buf (b : BufPool) (p q : Nat) (x : NetBuf) :
    (b.setBuf p x).buf q = if q = p then x else b.buf q := Function.update_apply _ _ _ _

@[simp] theorem BufPool.setBuf_setBuf (b : BufPool) (p : Nat) (x y : NetBuf) :
    (b.setBuf p x).setBuf p y = b.setBuf p y := by
  simp [BufPool.setBuf]

@[simp] theorem BufPool.setBuf_netBufList (b : BufPool) (p : Nat) (x : NetBuf) :
    (b.setBuf p x).netBufList = b.netBufList := rfl

@[simp] theorem BufPool.setBuf_requests (b : BufPool) (p : Nat) (x : NetBuf) :
    (b.setBuf p x).requests = b.requests := rfl

/-- `net_alloc_buf`; `frames k` is what the `k`-th call of `pfa_request_page`
    returns. -/
def netAllocBuf (frames : Nat → Nat) (b : BufPool) : Nat × BufPool :=
  let (buf, b) :=
    if b.netBufList = 0 then (frames b.requests, { b with requests := b.requests + 1 })
    else (b.netBufList, { b with netBufList := (b.buf b.netBufList).link })
  let b := b.setBuf buf { b.buf buf with link := 0, data := [], deficit := 0, refCount := 1 }
  (buf, { b with netBufAllocCount := b.netBufAllocCount + 1 })

/-- `net_free_buf`: drop one reference, and recycle the buffer with the last. -/
def netFreeBuf (b : BufPool) (buf : Nat) : BufPool :=
  let b := b.setBuf buf { b.buf buf with refCount := sub32 (b.buf buf).refCount 1 }
  if (b.buf buf).refCount = 0 then
    let b := { b with netBufAllocCount := b.netBufAllocCount - 1 }
    let b := b.setBuf buf { b.buf buf with link := b.netBufList }
    { b with netBufList := buf }
  else b

end MishaOS
