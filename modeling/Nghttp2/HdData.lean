/-
# Tables of HPACK

The static table, the tokens of header field names, and the two Huffman tables of
`nghttp2_hd.c` and `nghttp2_hd_huffman_data.c`.

* `lookupToken` is `lookup_token`: the table lists the names in the order of its `switch`;
* `huffSym` and `huffDecode` read the rows of `huff_sym_table` and `huff_decode_table`.
-/
import Mathlib.Tactic

namespace Nghttp2.Hd

/-- A byte string. -/
abbrev Bytes := List UInt8

/-- The bytes of a string constant. -/
def ascii (s : String) : Bytes := s.toList.map fun c => UInt8.ofNat c.toNat

/-- `nghttp2_hd_entry`: a name/value pair in a table, with the token of the name (`none`
for -1). -/
structure Entry where
  name : Bytes
  value : Bytes
  token : Option ℕ
deriving DecidableEq, Repr

/-! ## The static table -/

/-- `MAKE_STATIC_ENT`. -/
def makeStaticEnt (name value : String) (token : ℕ) : Entry := ⟨ascii name, ascii value, some token⟩

/-- `static_table`. -/
def staticTable : List Entry := [
  makeStaticEnt ":authority" "" 0,
  makeStaticEnt ":method" "GET" 1,
  makeStaticEnt ":method" "POST" 1,
  makeStaticEnt ":path" "/" 3,
  makeStaticEnt ":path" "/index.html" 3,
  makeStaticEnt ":scheme" "http" 5,
  makeStaticEnt ":scheme" "https" 5,
  makeStaticEnt ":status" "200" 7,
  makeStaticEnt ":status" "204" 7,
  makeStaticEnt ":status" "206" 7,
  makeStaticEnt ":status" "304" 7,
  makeStaticEnt ":status" "400" 7,
  makeStaticEnt ":status" "404" 7,
  makeStaticEnt ":status" "500" 7,
  makeStaticEnt "accept-charset" "" 14,
  makeStaticEnt "accept-encoding" "gzip, deflate" 15,
  makeStaticEnt "accept-language" "" 16,
  makeStaticEnt "accept-ranges" "" 17,
  makeStaticEnt "accept" "" 18,
  makeStaticEnt "access-control-allow-origin" "" 19,
  makeStaticEnt "age" "" 20,
  makeStaticEnt "allow" "" 21,
  makeStaticEnt "authorization" "" 22,
  makeStaticEnt "cache-control" "" 23,
  makeStaticEnt "content-disposition" "" 24,
  makeStaticEnt "content-encoding" "" 25,
  makeStaticEnt "content-language" "" 26,
  makeStaticEnt "content-length" "" 27,
  makeStaticEnt "content-location" "" 28,
  makeStaticEnt "content-range" "" 29,
  makeStaticEnt "content-type" "" 30,
  makeStaticEnt "cookie" "" 31,
  makeStaticEnt "date" "" 32,
  makeStaticEnt "etag" "" 33,
  makeStaticEnt "expect" "" 34,
  makeStaticEnt "expires" "" 35,
  makeStaticEnt "from" "" 36,
  makeStaticEnt "host" "" 37,
  makeStaticEnt "if-match" "" 38,
  makeStaticEnt "if-modified-since" "" 39,
  makeStaticEnt "if-none-match" "" 40,
  makeStaticEnt "if-range" "" 41,
  makeStaticEnt "if-unmodified-since" "" 42,
  makeStaticEnt "last-modified" "" 43,
  makeStaticEnt "link" "" 44,
  makeStaticEnt "location" "" 45,
  makeStaticEnt "max-forwards" "" 46,
  makeStaticEnt "proxy-authenticate" "" 47,
  makeStaticEnt "proxy-authorization" "" 48,
  makeStaticEnt "range" "" 49,
  makeStaticEnt "referer" "" 50,
  makeStaticEnt "refresh" "" 51,
  makeStaticEnt "retry-after" "" 52,
  makeStaticEnt "server" "" 53,
  makeStaticEnt "set-cookie" "" 54,
  makeStaticEnt "strict-transport-security" "" 55,
  makeStaticEnt "transfer-encoding" "" 56,
  makeStaticEnt "user-agent" "" 57,
  makeStaticEnt "vary" "" 58,
  makeStaticEnt "via" "" 59,
  makeStaticEnt "www-authenticate" "" 60]

/-- `NGHTTP2_STATIC_TABLE_LENGTH`. -/
def staticTableLength : ℕ := 61

/-! ## Tokens -/

/-- The names that have a token. -/
def tokenTable : List (Bytes × ℕ) := [
  (ascii "te", 61), (ascii "via", 59), (ascii "age", 20), (ascii "date", 32), (ascii "etag", 33),
  (ascii "link", 44), (ascii "from", 36), (ascii "host", 37), (ascii "vary", 58),
  (ascii "range", 49), (ascii ":path", 3), (ascii "allow", 21), (ascii "cookie", 31),
  (ascii "server", 53), (ascii "accept", 18), (ascii "expect", 34), (ascii ":method", 1),
  (ascii ":scheme", 5), (ascii "upgrade", 65), (ascii "refresh", 51), (ascii "referer", 50),
  (ascii ":status", 7), (ascii "expires", 35), (ascii "if-range", 41), (ascii "if-match", 38),
  (ascii "location", 45), (ascii "keep-alive", 63), (ascii "set-cookie", 54),
  (ascii "connection", 62), (ascii "user-agent", 57), (ascii ":authority", 0),
  (ascii "retry-after", 52), (ascii "content-type", 30), (ascii "max-forwards", 46),
  (ascii "last-modified", 43), (ascii "content-range", 29), (ascii "if-none-match", 40),
  (ascii "cache-control", 23), (ascii "authorization", 22), (ascii "accept-ranges", 17),
  (ascii "content-length", 27), (ascii "accept-charset", 14), (ascii "accept-language", 16),
  (ascii "accept-encoding", 15), (ascii "content-language", 26), (ascii "www-authenticate", 60),
  (ascii "content-encoding", 25), (ascii "content-location", 28), (ascii "proxy-connection", 64),
  (ascii "if-modified-since", 39), (ascii "transfer-encoding", 56),
  (ascii "proxy-authenticate", 47), (ascii "if-unmodified-since", 42),
  (ascii "content-disposition", 24), (ascii "proxy-authorization", 48),
  (ascii "strict-transport-security", 55), (ascii "access-control-allow-origin", 19)]

/-- `lookup_token`. -/
def lookupToken (name : Bytes) : Option ℕ := (tokenTable.find? fun e => e.1 = name).map Prod.snd

/-- `NGHTTP2_TOKEN_WWW_AUTHENTICATE`, the last token of the static table. -/
def tokenWwwAuthenticate : ℕ := 60

/-! ## Huffman codes -/

/-- `huff_sym_table`: the number of bits and the code, aligned to the right. -/
def huffSymTable : List (ℕ × ℕ) := [
  (13, 0x1ff8), (23, 0x7fffd8), (28, 0xfffffe2), (28, 0xfffffe3), (28, 0xfffffe4),
  (28, 0xfffffe5), (28, 0xfffffe6), (28, 0xfffffe7), (28, 0xfffffe8), (24, 0xffffea),
  (30, 0x3ffffffc), (28, 0xfffffe9), (28, 0xfffffea), (30, 0x3ffffffd), (28, 0xfffffeb),
  (28, 0xfffffec), (28, 0xfffffed), (28, 0xfffffee), (28, 0xfffffef), (28, 0xffffff0),
  (28, 0xffffff1), (28, 0xffffff2), (30, 0x3ffffffe), (28, 0xffffff3), (28, 0xffffff4),
  (28, 0xffffff5), (28, 0xffffff6), (28, 0xffffff7), (28, 0xffffff8), (28, 0xffffff9),
  (28, 0xffffffa), (28, 0xffffffb), (6, 0x14), (10, 0x3f8), (10, 0x3f9), (12, 0xffa),
  (13, 0x1ff9), (6, 0x15), (8, 0xf8), (11, 0x7fa), (10, 0x3fa), (10, 0x3fb), (8, 0xf9),
  (11, 0x7fb), (8, 0xfa), (6, 0x16), (6, 0x17), (6, 0x18), (5, 0x0), (5, 0x1), (5, 0x2),
  (6, 0x19), (6, 0x1a), (6, 0x1b), (6, 0x1c), (6, 0x1d), (6, 0x1e), (6, 0x1f), (7, 0x5c),
  (8, 0xfb), (15, 0x7ffc), (6, 0x20), (12, 0xffb), (10, 0x3fc), (13, 0x1ffa), (6, 0x21),
  (7, 0x5d), (7, 0x5e), (7, 0x5f), (7, 0x60), (7, 0x61), (7, 0x62), (7, 0x63), (7, 0x64),
  (7, 0x65), (7, 0x66), (7, 0x67), (7, 0x68), (7, 0x69), (7, 0x6a), (7, 0x6b), (7, 0x6c),
  (7, 0x6d), (7, 0x6e), (7, 0x6f), (7, 0x70), (7, 0x71), (7, 0x72), (8, 0xfc), (7, 0x73),
  (8, 0xfd), (13, 0x1ffb), (19, 0x7fff0), (13, 0x1ffc), (14, 0x3ffc), (6, 0x22), (15, 0x7ffd),
  (5, 0x3), (6, 0x23), (5, 0x4), (6, 0x24), (5, 0x5), (6, 0x25), (6, 0x26), (6, 0x27), (5, 0x6),
  (7, 0x74), (7, 0x75), (6, 0x28), (6, 0x29), (6, 0x2a), (5, 0x7), (6, 0x2b), (7, 0x76),
  (6, 0x2c), (5, 0x8), (5, 0x9), (6, 0x2d), (7, 0x77), (7, 0x78), (7, 0x79), (7, 0x7a),
  (7, 0x7b), (15, 0x7ffe), (11, 0x7fc), (14, 0x3ffd), (13, 0x1ffd), (28, 0xffffffc),
  (20, 0xfffe6), (22, 0x3fffd2), (20, 0xfffe7), (20, 0xfffe8), (22, 0x3fffd3), (22, 0x3fffd4),
  (22, 0x3fffd5), (23, 0x7fffd9), (22, 0x3fffd6), (23, 0x7fffda), (23, 0x7fffdb), (23, 0x7fffdc),
  (23, 0x7fffdd), (23, 0x7fffde), (24, 0xffffeb), (23, 0x7fffdf), (24, 0xffffec), (24, 0xffffed),
  (22, 0x3fffd7), (23, 0x7fffe0), (24, 0xffffee), (23, 0x7fffe1), (23, 0x7fffe2), (23, 0x7fffe3),
  (23, 0x7fffe4), (21, 0x1fffdc), (22, 0x3fffd8), (23, 0x7fffe5), (22, 0x3fffd9), (23, 0x7fffe6),
  (23, 0x7fffe7), (24, 0xffffef), (22, 0x3fffda), (21, 0x1fffdd), (20, 0xfffe9), (22, 0x3fffdb),
  (22, 0x3fffdc), (23, 0x7fffe8), (23, 0x7fffe9), (21, 0x1fffde), (23, 0x7fffea), (22, 0x3fffdd),
  (22, 0x3fffde), (24, 0xfffff0), (21, 0x1fffdf), (22, 0x3fffdf), (23, 0x7fffeb), (23, 0x7fffec),
  (21, 0x1fffe0), (21, 0x1fffe1), (22, 0x3fffe0), (21, 0x1fffe2), (23, 0x7fffed), (22, 0x3fffe1),
  (23, 0x7fffee), (23, 0x7fffef), (20, 0xfffea), (22, 0x3fffe2), (22, 0x3fffe3), (22, 0x3fffe4),
  (23, 0x7ffff0), (22, 0x3fffe5), (22, 0x3fffe6), (23, 0x7ffff1), (26, 0x3ffffe0),
  (26, 0x3ffffe1), (20, 0xfffeb), (19, 0x7fff1), (22, 0x3fffe7), (23, 0x7ffff2), (22, 0x3fffe8),
  (25, 0x1ffffec), (26, 0x3ffffe2), (26, 0x3ffffe3), (26, 0x3ffffe4), (27, 0x7ffffde),
  (27, 0x7ffffdf), (26, 0x3ffffe5), (24, 0xfffff1), (25, 0x1ffffed), (19, 0x7fff2),
  (21, 0x1fffe3), (26, 0x3ffffe6), (27, 0x7ffffe0), (27, 0x7ffffe1), (26, 0x3ffffe7),
  (27, 0x7ffffe2), (24, 0xfffff2), (21, 0x1fffe4), (21, 0x1fffe5), (26, 0x3ffffe8),
  (26, 0x3ffffe9), (28, 0xffffffd), (27, 0x7ffffe3), (27, 0x7ffffe4), (27, 0x7ffffe5),
  (20, 0xfffec), (24, 0xfffff3), (20, 0xfffed), (21, 0x1fffe6), (22, 0x3fffe9), (21, 0x1fffe7),
  (21, 0x1fffe8), (23, 0x7ffff3), (22, 0x3fffea), (22, 0x3fffeb), (25, 0x1ffffee),
  (25, 0x1ffffef), (24, 0xfffff4), (24, 0xfffff5), (26, 0x3ffffea), (23, 0x7ffff4),
  (26, 0x3ffffeb), (27, 0x7ffffe6), (26, 0x3ffffec), (26, 0x3ffffed), (27, 0x7ffffe7),
  (27, 0x7ffffe8), (27, 0x7ffffe9), (27, 0x7ffffea), (27, 0x7ffffeb), (28, 0xffffffe),
  (27, 0x7ffffec), (27, 0x7ffffed), (27, 0x7ffffee), (27, 0x7ffffef), (27, 0x7fffff0),
  (26, 0x3ffffee), (30, 0x3fffffff)]

/-- The row of a symbol in `huff_sym_table`. -/
def huffSym (sym : ℕ) : ℕ × ℕ := huffSymTable.getD sym (0, 0)

/-- `nghttp2_huff_decode`: the next state, the flags and the symbol. -/
structure HuffDecode where
  state : ℕ
  accepted : Bool
  sym : Option UInt8
  fail : Bool
deriving DecidableEq, Repr

/-- `huff_decode_table`, one number for each state, and in it three hexadecimal digits for each
group of entries.  The first digit says what the entries of the group do:
* 0 to 3: the code of the symbol in the other two digits ends so many bits before the four bits
  do, and each value of these bits has an entry;
* 4: go on in the state in the other two digits;
* 5: the same, and the input may end there;
* 6: fail. -/
def huffDecodeTable : List ℕ := [
  0x40440540740840b40c41041341941c42042342a431439540,
  0x03003103206106306506906f07307440d40e411412414415, 0x13013113216116316516916f, 0x230231232261,
  0x330331, 0x332361, 0x26326526926f, 0x363365, 0x36936f,
  0x17317402002502d02e02f033034035036037038039, 0x27327412012512d12e, 0x373374, 0x22022522d22e,
  0x320325, 0x32d32e, 0x12f133134135136137138139, 0x22f233234235, 0x32f333, 0x334335,
  0x236237238239, 0x336337, 0x338339, 0x41a41b41d41e42142242442542b42e43243543a43d441544,
  0x03d04105f06206406606706806c06d06e070072075426427, 0x13d14115f162164166167168, 0x23d24125f262,
  0x33d341, 0x35f362, 0x264266267268, 0x364366, 0x367368, 0x16c16d16e17017217503a042043044,
  0x26c26d26e270, 0x36c36d, 0x36e370, 0x27227513a142143144, 0x372375, 0x23a242243244, 0x33a342,
  0x343344, 0x42c42d42f43043343443643743b43c43e43f442443445548,
  0x04504604704804904a04b04c04d04e04f050051052053054, 0x14514614714814914a14b14c, 0x245246247248,
  0x345346, 0x347348, 0x24924a24b24c, 0x34934a, 0x34b34c, 0x14d14e14f150151152153154,
  0x24d24e24f250, 0x34d34e, 0x34f350, 0x251252253254, 0x351352, 0x353354,
  0x05505605705906a06b07107607707807907a44644744954a, 0x15515615715916a16b171176, 0x255256257259,
  0x355356, 0x357359, 0x26a26b271276, 0x36a36b, 0x371376, 0x17717817917a02602a02c03b05805a44b44e,
  0x27727827927a, 0x377378, 0x37937a, 0x12612a12c13b15815a44c44d44f451, 0x22622a22c23b, 0x32632a,
  0x32c33b, 0x25825a02102202802903f450452454, 0x35835a, 0x12112212812913f02702b07c453455458,
  0x221222228229, 0x321322, 0x328329, 0x23f12712b17c02303e45645745945a, 0x33f22722b, 0x32732b,
  0x27c12313e00002404005b05d07e45b45c, 0x37c22323e, 0x32333e, 0x10012414015b15d17e05e07d45d45e,
  0x20022424025b, 0x300324, 0x34035b, 0x25d27e15e17d03c06007b45f, 0x35d37e, 0x25e27d13c16017b46046e,
  0x35e37d, 0x23c26027b46146546f485, 0x33c360, 0x37b462463466469470477486499,
  0x05c0c30d046446746846a46b47147447847e48748e49a4a9, 0x15c1c31d00800820830a20b80c20e00e246c46d,
  0x25c2c32d0180182, 0x35c3c3, 0x3d0280282, 0x380382, 0x1831a21b81c21e01e20990a10a70ac,
  0x2832a22b82c2, 0x3833a2, 0x3b83c2, 0x2e02e21991a11a71ac, 0x3e03e2, 0x2992a12a72ac, 0x3993a1,
  0x3a73ac, 0x47247347547647947b47f48248848b48f49249b4a24aa4b4,
  0x0b00b10b30d10d80d90e30e50e647a47c47d480481483484, 0x1b01b11b31d11d81d91e31e5, 0x2b02b12b32d1,
  0x3b03b1, 0x3b33d1, 0x2d82d92e32e5, 0x3d83d9, 0x3e33e5,
  0x1e608108408508608809209a09c0a00a30a40a90aa0ad, 0x2e6181184185186188192, 0x3e6281284, 0x381384,
  0x285286288292, 0x385386, 0x388392, 0x19a19c1a01a31a41a91aa1ad, 0x29a29c2a02a3, 0x39a39c,
  0x3a03a3, 0x2a42a92aa2ad, 0x3a43a9, 0x3aa3ad, 0x48948a48c48d49049149349649c49f4a34a64ab4ae4b54be,
  0x0b20b50b90ba0bb0bd0be0c40c60e40e80e9494495497498, 0x1b21b51b91ba1bb1bd1be1c4, 0x2b22b52b92ba,
  0x3b23b5, 0x3b93ba, 0x2bb2bd2be2c4, 0x3bb3bd, 0x3be3c4, 0x1c61e41e81e900108708908a08b08c08d08f,
  0x2c62e42e82e9, 0x3c63e4, 0x3e83e9, 0x10118718918a18b18c18d18f, 0x20128728928a, 0x301387,
  0x38938a, 0x28b28c28d28f, 0x38b38c, 0x38d38f, 0x49d49e4a04a14a44a54a74a84ac4ad4af4b14b64b94bf4cf,
  0x09309509609709809b09d09e0a50a60a80ae0af0b40b60b7, 0x19319519619719819b19d19e, 0x293295296297,
  0x393395, 0x396397, 0x29829b29d29e, 0x39839b, 0x39d39e, 0x1a51a61a81ae1af1b41b61b7,
  0x2a52a62a82ae, 0x3a53a6, 0x3a83ae, 0x2af2b42b62b7, 0x3af3b4, 0x3b63b7,
  0x0bc0bf0c50e70ef4b04b24b34b74b84ba4bb4c04c74d04df, 0x1bc1bf1c51e71ef00908e09009109409f,
  0x2bc2bf2c52e7, 0x3bc3bf, 0x3c53e7, 0x2ef10918e19019119419f, 0x3ef20928e, 0x30938e,
  0x29029129429f, 0x390391, 0x39439f, 0x0ab0ce0d70e10ec0ed4bc4bd4c14c44c84cb4d14d84e04ee,
  0x1ab1ce1d71e11ec1ed0c70cf0ea0eb, 0x2ab2ce2d72e1, 0x3ab3ce, 0x3d73e1, 0x2ec2ed1c71cf1ea1eb,
  0x3ec3ed, 0x2c72cf2ea2eb, 0x3c73cf, 0x3ea3eb, 0x4c24c34c54c64c94ca4cc4cd4d24d54d94dc4e14e74ef4f6,
  0x0c00c10c80c90ca0cd0d20d50da0db0ee0f00f20f30ff4ce, 0x1c01c11c81c91ca1cd1d21d5, 0x2c02c12c82c9,
  0x3c03c1, 0x3c83c9, 0x2ca2cd2d22d5, 0x3ca3cd, 0x3d23d5, 0x1da1db1ee1f01f21f31ff0cb0cc,
  0x2da2db2ee2f0, 0x3da3db, 0x3ee3f0, 0x2f22f32ff1cb1cc, 0x3f23f3, 0x3ff2cb2cc, 0x3cb3cc,
  0x4d34d44d64d74da4db4dd4de4e24e44e84eb4f04f34f74fa,
  0x0d30d40d60dd0de0df0f10f40f50f60f70f80fa0fb0fc0fd, 0x1d31d41d61dd1de1df1f11f4, 0x2d32d42d62dd,
  0x3d33d4, 0x3d63dd, 0x2de2df2f12f4, 0x3de3df, 0x3f13f4, 0x1f51f61f71f81fa1fb1fc1fd,
  0x2f52f62f72f8, 0x3f53f6, 0x3f73f8, 0x2fa2fb2fc2fd, 0x3fa3fb, 0x3fc3fd,
  0x0fe4e34e54e64e94ea4ec4ed4f14f24f44f54f84f94fb4fc,
  0x1fe00200300400500600700800b00c00e00f010011012, 0x2fe102103104105106107, 0x3fe202203, 0x302303,
  0x204205206207, 0x304305, 0x306307, 0x10810b10c10e10f110111112, 0x20820b20c20e, 0x30830b,
  0x30c30e, 0x20f210211212, 0x30f310, 0x311312, 0x01301401501701801901a01b01c01d01e01f07f0dc0f94fd,
  0x11311411511711811911a11b, 0x213214215217, 0x313314, 0x315317, 0x21821921a21b, 0x318319,
  0x31a31b, 0x11c11d11e11f17f1dc1f94fe4ff, 0x21c21d21e21f, 0x31c31d, 0x31e31f,
  0x27f2dc2f900a00d016600, 0x37f3dc, 0x3f910a10d116600600, 0x20a20d216600600600600, 0x30a30d,
  0x316600600600600600600600600]

/-- The states after `k` bits from the start of a code. -/
def restStates : ℕ → List ℕ
  | 0 => [0]
  | 1 => [1, 0x16]
  | 2 => [2, 9, 0x17, 0x28]
  | _ => [3, 6, 0xa, 0xf, 0x18, 0x1f, 0x29, 0x38]

/-- The entries of a group.  The input may end after bits that are all ones. -/
def huffGroup (g : ℕ) : List HuffDecode :=
  let v := g % 2 ^ 8
  match g >>> 8 with
  | 4 => [⟨v, false, none, false⟩]
  | 5 => [⟨v, true, none, false⟩]
  | 6 => [⟨0, false, none, true⟩]
  | k => (restStates k).zipIdx.map fun (state, j) =>
      ⟨state, j + 1 == 2 ^ k, some (UInt8.ofNat v), false⟩

/-- The entries of a row, from the last one. -/
def huffRow (row : ℕ) : List HuffDecode :=
  (List.range 16).flatMap fun i => (huffGroup ((row >>> (12 * i)) % 2 ^ 12)).reverse

/-- The entry of `huff_decode_table` for a state and four bits. -/
def huffDecode (state nibble : ℕ) : HuffDecode :=
  (huffRow (huffDecodeTable.getD state 0)).getD (15 - nibble) ⟨0, false, none, true⟩

end Nghttp2.Hd
