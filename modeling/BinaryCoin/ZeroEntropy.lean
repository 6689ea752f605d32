/-
  BinaryCoin — the keys of the zero entropy.

  What the libraries answer on the way from this entropy to the first keys of
  its two branches: the seed of the phrase, the keyed digests under it and the
  public keys.  Past the tables a key is made from its index, so that every
  index has one.
-/
import BinaryCoin.WalletFile

namespace BinaryCoin

open LittleEndian HdWalletBackend

/-- The number that the bytes spell, the highest first. -/
def ofBe (bytes : Bytes) : ℕ := ofLe bytes.reverse

def beBytes (size n : ℕ) : Bytes := (leBytes size n).reverse

def beHash (n : ℕ) : Hash256 := Hash256.ofBytes (beBytes 32 n)

theorem length_beBytes (size n : ℕ) : (beBytes size n).length = size := by
  rw [beBytes, List.length_reverse, length_leBytes]

theorem ofBe_beHash {n : ℕ} (h : n < 2 ^ 256) : ofBe (beHash n).bytes = n := by
  rw [beHash, Hash256.bytes_ofBytes (length_beBytes 32 n), ofBe, beBytes, List.reverse_reverse,
    ofLe_leBytes (by norm_num; exact h)]

/-- The order of the group. -/
def groupOrder : ℕ := 0xfffffffffffffffffffffffffffffffebaaedce6af48a03bbfd25e8cd0364141

/-! ## The tables -/

/-- A child of a branch: the halves of its digest, and its public key. -/
structure ChildKey where
  tweak : ℕ
  chainCode : ℕ
  publicKey : ℕ

/-- A branch: its secret, its chain code, its public key and its first children. -/
structure KeyBranch where
  secret : ℕ
  chainCode : ℕ
  publicKey : ℕ
  children : List ChildKey

def seedOfZero : ℕ :=
  0x408b285c123836004f4b8842c89324c1f01382450c0d439af345ba7fc49acf70 * 2 ^ 256 +
    0x5489c6fc77dbd4e3dc1dd8cc6bc9f043db8ada1e243c4a0eafb290d399480840

def masterOfZero : ℕ × ℕ :=
  (0x235b34cd7c9f6d7e4595ffe9ae4b1cb5606df8aca2b527d20a07c8f56b2342f4,
    0xf40eaad21641ca7cb5ac00f9ce21cac9ba070bb673a237f7bce57acda54386a4)

/-- The digests between the master key and the branches, under the chain code, the key and the
    number of the child. -/
def pathDigests : List ((ℕ × ℕ × ℕ) × ℕ × ℕ) := [
  ((0xf40eaad21641ca7cb5ac00f9ce21cac9ba070bb673a237f7bce57acda54386a4,
    0x00235b34cd7c9f6d7e4595ffe9ae4b1cb5606df8aca2b527d20a07c8f56b2342f4, 0x8000002c),
    0xac51a4e3ef9e4e33ccfb9af8cddbb6600fa9035e51d66b4c4f9b64a131577575,
    0xcfab712b87837428e6e7e0536ef2ee5b6f832ddeb655122cd1013bdd86f9bc2b),
  ((0xcfab712b87837428e6e7e0536ef2ee5b6f832ddeb655122cd1013bdd86f9bc2b,
    0x00cfacd9b16c3dbbb212919ae27c26d3157016fc0af48b931e59a32d969c7ab869, 0x80000001),
    0xb5f32d7287488cdf09b4502b8701e7dd96dd0b5d6014f55e22b8700b278e7efc,
    0x9f17bcec9c3c326e749405efd9bd008f7552eec5e259d67668fbf3d355e1be58),
  ((0x9f17bcec9c3c326e749405efd9bd008f7552eec5e259d67668fbf3d355e1be58,
    0x0085a00723f38648911c45eb0e0328baf44c452a81a557e840bc893f14f3d2f624, 0x80000000),
    0x0a6d8f57cd42030b115dca517a913c78717b1c0fd14f84c05791b39211e13f16,
    0x12ed17c3e72223beb38ea98ec1317581f02458f02b0ecf4abe02c6490eca170a),
  ((0x12ed17c3e72223beb38ea98ec1317581f02458f02b0ecf4abe02c6490eca170a,
    0x03b9385a6fbee0caa6e79407f83b0053e2d864b6c7a8f32ce61c3f495b5dd5d027, 0x0),
    0x00505db47a8283549b61cb7e1ed6e437801991fc1238ea1e4d6955adb764e635,
    0x0824a2eb503eb75ba3e846dac909df16576736973a30e1db961c966cdec96cdf),
  ((0x12ed17c3e72223beb38ea98ec1317581f02458f02b0ecf4abe02c6490eca170a,
    0x03b9385a6fbee0caa6e79407f83b0053e2d864b6c7a8f32ce61c3f495b5dd5d027, 0x1),
    0x8c7303be92ef2d164c1fea6e0117b7343bd384c7f9326571ffafb174e01218c6,
    0x2a6a0f72c997c78a92ffc951c3f7f46a0a7fef24d345963b9858fb5ea72a72e5)]

def accountKey : ℕ × ℕ :=
  (0x900d967bc0c84b9c2da3b55f7db9f76cbdc0469176a76d01141af2a705b4353a,
    0x03b9385a6fbee0caa6e79407f83b0053e2d864b6c7a8f32ce61c3f495b5dd5d027)

def receiveBranch : KeyBranch where
  secret := 0x905df4303b4acef0c90580dd9c90dba43dd9d88d88e0571f61844854bd191b6f
  chainCode := 0x0824a2eb503eb75ba3e846dac909df16576736973a30e1db961c966cdec96cdf
  publicKey := 0x03a92b4d1a6c243db19cfed703719ca2314230cfa27a40e33e98281fa6c542991a
  children := [
  ⟨0x8125274742f4dea8cd25369615aad15cfe008a31d2ad7788f09161858d96ff75,
    0x7079a54abd498552aff549ac230f62e47c81bff45877901a758f7ab13896733a,
    0x035a6f28253f35e2ff1ab0b086b8c87f731159661157e5be2ca98188369625dc32⟩,
  ⟨0x557ff52c7975a30d93bc3a2919473c99ed0be6388206a42663ac3d5631718c70,
    0x492e7fd8eaf9ececd85ccededd57ce7d5a521a5283bc362f3722e693e7a3e871,
    0x038f33099c2cc3739e24c329d9e2d72ff7ce8bb4f4491b1763f69ca8693ea34806⟩,
  ⟨0xb1ded7c385fd21c374b06ad2a14455e1e0166f74fc4989bec912652459281a9b,
    0x50f0c85a0ac36ef17b17b6ac014d9bc0f48adc977658724cb371e4c02214dfc0,
    0x027f9100173fde7faeb778656e2e83aa5556a649453f5cf29651b711585078f8d7⟩,
  ⟨0x435955271a6e47c818bb0456461383df18b69c46701198546eec5eb8307bc6fe,
    0x0abc82b297eb04737fd623f44b9d870e2ce18e6e5f58ff05beb9f9d3dacc790e,
    0x02e87b34d8cad60d84463746cd76549a886ac7c1adb02fd7072e3c88fee24a89f2⟩,
  ⟨0x95398194f5a3c98832472e2853716899d8eb7c4e7fe9a41e4cf5bcac8c61b80d,
    0x560517ca5818d304c37eeaf30e02d3b061f9b17ab59eb8769911ecb0e1789d9c,
    0x0244ae14ebc17f0d6ee92ac0921b6b6094ad02a5734642255981211cfc4cb24b58⟩,
  ⟨0x5242ea06670488bb083d3aa5cb8c9ce092006acb42decc5682d0c239011647c5,
    0x5eb643c37822c8ef225446f87e582bfe0f99f96e148da386f0a16555324b5619,
    0x0395f6237f513bb4f7998b45e694dcd313b5c77d5c5fd9bfa6cde849d211975d75⟩,
  ⟨0x91b6583a5c2a0cfdcb7a2c0a6c505b337ebb59f6ac90ad83006e8ed774dd78c6,
    0x8e97517fc79186709de975f01bd267052033229c4abd5bfc2fbdd1f843ac0d4a,
    0x03145fdcf3631566953cbced264095ea859840c665be43152ed74d1b3ee0765f4a⟩,
  ⟨0x25d26767298faa450bbd4c8d7f8afd82710baec84320c560706424198bcd61a8,
    0x481ab996a35bca3aef4add8a0c95630c4ace1ef795da9aafb4ecda7d4c3b0e2a,
    0x02e0613089893d560cedfa1763ba5574ff458c8237c190f0b914ad1cbdd69d9ceb⟩,
  ⟨0x42bb6847c4308f4434b122cb83496788c4537bf5c25ef1a3fcde45c7f369f68b,
    0xbe0c8501d3dd7cdadfe2bd26703ce78c14c4f21bcc7667acd330d85efa06669f,
    0x03c104015217c0ede7c0d9106e4de43a0417a6d117ef8ba4732c8d49aee75eb273⟩,
  ⟨0xb4f5053fecb2c02816a7a6ad64eee0ab86a05623007dab905344117e9b928a8f,
    0x262988626570f2855d8450617887273db92ff2360ca084c7c232c41957ae37e6,
    0x03df6bdaf18ed7fbc63ab35653388b4b1e9f214286aa57accd3ed09f12e1ec1435⟩,
  ⟨0x698827ad507dc4e98a8d52bbd08c1d6d09a30a17f93481d9005fd6b3e364982a,
    0x123a3d2205f7204035ffbff29406153009c69f6730f626274047c4c8b437c720,
    0x039cbbfab000b36bcb5de3fae1c10d04bd902a9a55ec27a3f3f2224641a1d54dfe⟩,
  ⟨0x871fa69e90be730154a2b0e20ebb8e28a210a9feed0a8d97b052f4befafaee04,
    0x482b703a4c8c1c64cdd708e78bc95682430ac0530a1208fc7b9e5b2e5f78e0d6,
    0x0284d1933e07d529352c32c721229f82e34fbc434af8cce63bc05bdce3a29e9b26⟩,
  ⟨0xaf460d7996eed622a4050b26268c592241455ff25a2f424a94f04607515bc622,
    0x902f251733d3585c2dfa42e6ada9c5556c883344d3339aa221327ee996e33ecf,
    0x02aa715210fa88494e76c53e2a4304c25e121cdd5e9874cf156ce0928511fef5e6⟩,
  ⟨0x9573afcc1137f001a9a1dc48442a01621d47caa1e430c06ccfeb43ff107f4ca4,
    0x290f9d00d21bc039707b68eb6214ef0267208985bd3d33e950a5d650f149c647,
    0x03ef336669e9029a7790f1c39c1083ba6ed0ac15c60793c187942c1c34d09f49b6⟩,
  ⟨0xcc57345bbed3ec1e81b34f7090bceb45b76ad630bb8a14a71a1d916ee008e777,
    0xa07bf1e0ae99222a89c64c7dc68abec7e6abc1fa455fd4e4e52e2f78134cbc4b,
    0x0382811429f6c6d8ac35e5a14f00600f8f755b5ae1cca9fdc2e048042f8a63af04⟩,
  ⟨0xde0c7ac96b8c6534a8ba34f32ef6f065e72730bd325c10ad1d176c2e3aa65145,
    0xacfd912872330aa0b6aee522c36414fad7514c3c9484729a4dec513f556ea8e5,
    0x02efa53930f7c2cfd45653576d1a4d5ca09ae16b789dd87163cc8a77ecf71a881c⟩,
  ⟨0xaf0cc7702edc22711b707aa0524fafd143476f77261ff71c9e2a0079b98010c0,
    0xc0e7b599d22ee909fccec5f8da49df77861b8f969c32bcc577df730f15c32926,
    0x035dd6070d093c41e6f50673083a2fbfccf13abf04de5cf77bc1ccf3cae8a624f7⟩,
  ⟨0x3808b3ed51b2e8a7ac99a55458d6911f05dbc1985f669b25ac41d50e71f1ad20,
    0xfed56cb75d73c685278685dac0356bb681586211ff75930df7ad1caad192488a,
    0x03a31c10442b481cd3eb0e0089c5faa6bd514e9498d7153ec74faad25588001ed1⟩,
  ⟨0x0502752fbd9eb6c4bc45f0c377c519019296210af0aa6d855c40ec81f0a023c5,
    0xc2de5a1e60c782eb105990ff64569885fa55aa6b17ade0955469b66ab0ef04e0,
    0x0230d835b68ce2e6f624cdf46826b9d8dc95d51f38b8c55cca86c34a461f9e2c05⟩,
  ⟨0x9721d945eb3dfff818fa2adbd2ae3efa7f77e555d3dbcd12dae071ec05f496dd,
    0x667735b95ea71ba21849ead48f9a9b4afa45182b4640dbd13aebbe206b715a38,
    0x03360b30da1579e32aaeb1164c155006fb119497001c38721ff1dee968d2d44e79⟩,
  ⟨0xf3a428f6727b86e23027db9cde029b1190f5a6fd3ea84d5a2f8e7c5831003874,
    0x00de2351fe370b564235b4ad6da6e93052f6c2d6513f08aa34c552621e43b7ce,
    0x03177245dffa70624a34a1304429eb6698cbb32c653cb244797a1a44a2d2604e39⟩,
  ⟨0xc77d830b6e056c847e3a3ef9c54ad04b6ed0eb4307ba04222b9689f6fecef8bc,
    0xe4faa0fc51847e6a60e5cfb08432737f6fc29650cf1b79c4f7a01e0f594dbe52,
    0x023402183f6b474004d16ceed5985f6f4c09b394fd04479262c0792b3ca35477b4⟩,
  ⟨0x1aee4c94cec38a6b7016ee8b9be6f7314f29a4d6f8c7fd62de81d7f63521c616,
    0xc95c546e0a81c45e514bbccd1af6b1051bb31074dafb1763f7314a6445b14ef8,
    0x03dcdea2e52bc09b8d23bc51873900ac505f03c1bce28e3a2430b615b4bd68dec7⟩,
  ⟨0x26d794927cc5df1f4df67646d334924722f92fbf636f4a8598960e75ebb880a0,
    0x060e92c48771ae8dfa172aa718ce2a6791972dd0a7dfd1f73cba4b4b1d13a474,
    0x03e970690e7be6cf96384c4886e74a0b2111607d0b349b74a436ae86827e182a04⟩,
  ⟨0xc7af68187232161bf8482f1ba0ec44b5b81eb7e86f5639ba3cc870cad232d257,
    0x88b32bc848d61e086d33790e8d9c50e1749a34ff7f92052df50a9c474b2cacfd,
    0x0368eed86a31973036dd48d081f51bb66bcb2ef26a61fb0a062bfd4e33fcfae951⟩,
  ⟨0xa33967cf5592bad551fd90265dd6b32de4a13c1a87aacaa400dd2831a2b5cc21,
    0x2f0c85965f722de7b53e9b3c0851e9d3d57adc131528f07059f7bfc1dad0f3e2,
    0x0386fe226030a8f7c31f8dc4741ffd4a020888b7d4cdbcc9bebcee8295908fe942⟩,
  ⟨0x5f6a4e9e563f3e9cd2bae9c699b4ba9ba6a8c7d8bb75e4c9050aed4bcd28b4ed,
    0x95e07919eaf23b4286bdf7500df6cbdbe43d4465a6a4b968dc246fbe0ac8efcf,
    0x0348086850b1c5457e4700b1a94cec569837c34cf6b7dddb65f406db7062557e86⟩,
  ⟨0x6a379d727bf4e6d3ac9f57a4424d8f69a10941f548ba2f68c05066aced3d5c51,
    0x387ec6ee762b45676174a8f612218635a1ef65fe7fddcfd555ead274c7e85032,
    0x03ee27d15e07a3a81940ce1dd6051259c026bbbd6a66f45f2b5f3e3f99f96b9bae⟩,
  ⟨0x7abe755c8b3dc728fcbd0c7fb61884607cc41222555fadcd996049fe581261c4,
    0x38043cf1d2b9d2f4104e2ba65cefba2113a826943e069cd22df0d71aae11f37d,
    0x0253e43dcca352c6f1c0144f6773c9e5590852df2cb0b5501bf9a708be81cc61d6⟩,
  ⟨0x298f7dc0bbc1a45b8bff21db0f21f10f2bcc9ec1fe746b04776cda63d82080ad,
    0x46e804400c27b9834f39dae662f86be6eeafc57d3db1e49b37d2d4733acb9715,
    0x03e8eac3ed336c2cd183833524960814d199016e218517300dd6dd7db6f42a8731⟩,
  ⟨0x0c3fcfd273fab136e8090345c747685fc56ab5cad3dedfa1247c402e7452ec45,
    0xb10e5442cb16f20eab302b31000bce4fd943010a7fa2a616061b2987602ed5ea,
    0x02cc80dd02fc161f6ce20c7a859d024a287612cb10249c74de779f715bbc909786⟩,
  ⟨0xe6a3d4c257aacf17714d1582d029ec39421f4b10e3a2d537186eb826d84cce0c,
    0x2e1909c1da36881e3b89d713efac5bcbd68bd2cb0ccad3bc98cae69729536c12,
    0x0286aba661e8fa9c8196adffd9db4481bb1f8d3d4640fdf0994e0e692e8f54e623⟩,
  ⟨0x69ab8322289297e8a808c2679f20004b71c704b5ddd993a022fff4372bb48a1b,
    0xf5beddc5e5c92c748cfbed728faf9b74d407377c3db29c7b4dee1d83550e717e,
    0x031648e03e497a95ebc9ac5e1694506562dc4084e9b9708d54a7cf2ff01049dcac⟩,
  ⟨0x55bf25a63d0276eed5fb8784883e86051fc0a9f4434132dfa07db0f414c03263,
    0x2c81bae3ad5969679a347cea4b8051b231852baff32c9d6cd03da71cb3adf75f,
    0x02612821217880fd55fe6b8f8c275cf65f3196964c5fad67efd5ba36e405be1d4c⟩,
  ⟨0x4381ce1c76f5b45a185bc6b6a43ebf9a92bc81c589b5809423955b3a195ef649,
    0xb622cb2bad10aef96481b77d130a2cc89f5d3810de02711a66a58485302afa8c,
    0x03d816692b500a9beae8b0f46719ac595d857ad1055c5bf09b98a65ea4b346ad5c⟩,
  ⟨0x63298c9b179d2c5d5e109d4527ca3bcbf88f805b359687fd6a2502e4bfc6fa23,
    0x78f6ef4cbbc5e7813daf25b5d64eb563ada309bb5f449d986e0cc29487087adb,
    0x03bfac0632466a2739a57bc6e70aed9540e730bf79632221439352d4cc71c9e1c8⟩,
  ⟨0x2defe250ea53e54a5b684c36786ef2b07768614cd1ed5f5c66c23152d27d8858,
    0x0664d71b65099f1a9519bac873a902a824e6e4a5a7f79f0cdd7609d27f34a7ae,
    0x0305519106d45bbe4978893f1e2d7c90a8584c687475e314e96dd5153b34af98c8⟩,
  ⟨0x6088f3f9fea52ac07cc4aabfcc767f8b27cdd90efecd300497fe1840e135c404,
    0xca2adfe018ef4092b0525f3c90d4e9a399025244fea2818f74ff477a462406bf,
    0x03df1fb09df539c62080302a9868876ce7cfac26b017a928db20bdbe080b6452ac⟩,
  ⟨0xab3389234624cdc50444b82eae0385c91a88510e636258c445aba68c88a6078c,
    0x90954518303062136065bce1cdd9a456718b9a87523b58721b89f0194f02b554,
    0x037c0fa2c417eec4a86ff178598162dcc60151bccf8d9af8209a46f7f85db9375b⟩,
  ⟨0xcd324792417b9092400388392f485e15e1b2a97ca57a1c02bbc326a81e2ab473,
    0x1aed49d80a175a93fffa9e132425e108557d78850e03d53c1a6f980cf5221e01,
    0x03cbb8193c5e726c18af790a40ab93751e6acfaec7ae52ba9fba3c62cb370da529⟩,
  ⟨0x8e7a6b4b19a467615da2186fba99f4095c05034329d97f60dcaa81d03485aad7,
    0xc0a3fed504c6b7b41316a0b739c4622e644c3098ca3f6bcaf13e5501614e87f7,
    0x027ca3b2badc58b2248e92921d3031874334059b3fb6c76cd48d99e03d6f8c725e⟩]

def changeBranch : KeyBranch where
  secret := 0x1c809a3a53b778b279c39fcd7ed1aea23ee4ee72c091323753f8458f15900cbf
  chainCode := 0x2a6a0f72c997c78a92ffc951c3f7f46a0a7fef24d345963b9858fb5ea72a72e5
  publicKey := 0x025de4f10b1b7d053bced470fc74bc7751660861c44730cbaa56335bcccde4e9bd
  children := [
  ⟨0xd9e0c5a76665a3b5e1024b5918e504d56c17422d7bba28b3c0d8793692225baa,
    0x56f5f4beb417c7b6b455fe405bfbccf8e17a2235d83fc9af56a09a94cdf47d52,
    0x03c71cdd713224479fff24b56db524c2385acf09725605e7440de0c34272e2abf5⟩,
  ⟨0x98d70ed142fcc555db29800acf0f782d8c1f7ce7b0a7d56188522ae45f40de58,
    0x2e48b55c529eef68334e70acad8d21f28ce1bebb35192d565a0cb2e485d3671f,
    0x02730ad008ce8bd2f391b08b9c4838af732341e9704cba0dc03d83f977dfcf7d96⟩,
  ⟨0x13e3a70160a8b925bca484b8704727e5b65167ad74c1d993ce205812268c3138,
    0x94b236db7048cf6854f1867dbd66d22e0e1506e95c588994d22b7e81d3d6120c,
    0x025b8fd9c6c71f29c3c362c3b3ab552e625925f6dbfdf275d8da204bdf06a4402e⟩,
  ⟨0x280569923715ef068b24dc4c7cddae4438cce8e7f043b745f76cc91cfc66348a,
    0xcdd7e1eee71f2509f090afe10b2b9497673248978a2cb776cfb9f4a20516be78,
    0x03c7d3fb12147b070f999174ff4f5eef0f158d481ace3372af6253fddbcf1195b7⟩,
  ⟨0x85d076b1982291767ce02bb359fa509ca87e473bce1898bf291c6b34d510437d,
    0x2a022952cc8dd2aa0ae9f22eed877b72fd2c4dfe51c8c7203fc01c7afba25536,
    0x029f2d9e99435166683daf7ea70fc8f563ded410243a7c029a86c982d699ea1338⟩,
  ⟨0x14b2bb3ad2f3a4a3e8b4a7da18c564cab4921cfcb00c561434b28d19c99c0736,
    0x0e5a06a7c6e099c6b6a85c382f2b0f71a6d01101043f084a5bad48138b55334d,
    0x02e605e73ed29b1ed9b60cddc41334db89a858a38f8e89c7ce8d96160e983a0f33⟩,
  ⟨0x5d2edbc1b03bd0e233a724b668699a96180d4b7621a970d20370439164812ace,
    0x7efd077f15ed5920c8bb786c2e97719eb53d8f72ea4a18df51e6e5a35faa4b0c,
    0x03094ef3e954906420944deda4b22ec14557651878cecdf9af9e1673dd38f6561f⟩,
  ⟨0xe450041f989a7fb76d4ee81cd7de594d6e399ea9908a4605042bf507e1d88c7c,
    0x28ed1c4324a1eee837fb7ffe36253839316e1680fe5f8e0925811ec70de1482a,
    0x022d69c3b2f2261bf9a85007214d1d73f4dda86da612daf93e622d714ad8c8ebd2⟩,
  ⟨0x860fb224ad2d99824d9e12f9cdac1a3889562f33a0c0488fdcd184ff8646ecb6,
    0xa7a578fdd4949d5be6bde79434cc2a9791df62bc9a8db3e3d6ecd2a8be0203ce,
    0x02d202d54c655d921b154aef056570c6d1604225ecda5541fc82bd63b2f9128ae9⟩,
  ⟨0x4a322fd5bfccf354c414c0582e272426adf5e9de83cdd2f12e093fa0c2d2a5da,
    0xba04f633e2a8ce7c2690983b05786d95815c7931d650cec59bce4fcae996ef8b,
    0x03ba572bb00343aac5bb7a48c38d6097822a23b1b1fce293e5fc910bbf1d607e28⟩,
  ⟨0xf764d1e81235ef589b419de2a636e16b0357c7cf5e26e780640b0acff38da727,
    0xec402dafcc69b0b8ff77eddf75ca2e03b7c9a4008b56943948834b8bfc3333de,
    0x02cf4b8206ffd4cee02de5e23bbbae32c6f5a100dab1dd69db5ce48a5ef974e238⟩,
  ⟨0xad9a7d79a6c6ecd37e2668c549d873190f6a3b6c187b651a064ebf6a1de2682b,
    0xbe0acadc40ace8efe6693c7c92d5816b83b78849bcf39bc6f75df0c3476d0a7e,
    0x03cf9cdf66028a3ba014e24489320d25760ea6bb9fff0ee6ea9f7ec487425ad041⟩,
  ⟨0x7b999c4b20b2b814fb2e88f0ad1924354bcaef21a87b87ab70bcc916651e0b09,
    0x888cb12adbb843e7bc082b95762abd4be256bcabc9dfa7226e13e4bd0311c3ed,
    0x02a36e773a5f0608ac16336710b0754140cd6d79e36b6f2048927412ae74d144be⟩,
  ⟨0xf7a41127878f17032b2161b9a2df85d79ee2197e435578a515dd9abe08705eeb,
    0xc00a5f21a549b91d05fdf64e48a0c2f26fb7c2e51cf28540eed5032b33890653,
    0x03be992709295dfef9a7fcae9ec338a1bc1da62e751319324ea452b8891d6d1228⟩,
  ⟨0xfc565140e5565470c7f40fc3b1a961dc742740d1868c1d8567c77ceb59545dac,
    0xf072aeaa24cf288d3399a97d149dc38f3158f5c70a5b041343bffee04c0efd4b,
    0x02c46b703698731c0d3dee2af4c021d0b014dc538ad0577f0c59680d24622470e5⟩,
  ⟨0x6351784c93ac49527eaf7ed7733e1996d8948b6834a791beacd27c076cc5ba17,
    0x1abf34b9f81c9aa9a3f83a627533e90523314aadf0f1cd16b9b874d90da231ec,
    0x027209eed37bfa4243b23ac92e33bb30f6d347aa21571037410a56e44d82bc3882⟩,
  ⟨0x1fdf2f99ae7111785c7ce633aa1071f3ffb4a19148875f57fff344d88fa4e16d,
    0xfc65109f284660827199caf93d56a76315e8b42b8b2767d8ec28697c0ce7da8f,
    0x021f1f98ff9ab792ad09956a202aa2b682f91f522a796d2c4dd8c9264fa27aac2d⟩,
  ⟨0xaf3ce5d4b4eda0ce4a86a7697571fb0440b6695ab44f6a7e304d6020196ea0a9,
    0xb00d9ec883c0d006d4da92f7fe24a93353332d9db6c2487d7ac4f197d556dd1e,
    0x03d6e01047b70e8cba49ac52a2dc99f5efefaa4b1eb47ecd111ea041b32f87c8c1⟩,
  ⟨0x604587e83a128b7ddcedbd0cbba61d939d3cb71418fbf22bbbd6ef09dadb1969,
    0x77e4410d54a742d7259c72aaf574591c5b6d9a2a73e7b208cbcfbe55673b64bb,
    0x03f48a9876ce246b1ac173fc61a99a450fa561b85b9096700d8d9a21c74a7a3e9c⟩,
  ⟨0x7f8ebff644efd9d82e220d8fb268d38c6ac4c555da05ce0f891ca1f2be664574,
    0x6c39b89d456bf2a64eb5027c78bd60ee231e231b92f9cc37854918d307e55079,
    0x03783ca4366b6e78f573b9d356b37b49f0bc1e355669d7bfa59269367ade7a2a12⟩,
  ⟨0x4354d1b049257242140c0345b46593b5b173f304a5c386156ab65fd9f2162a5c,
    0xe631dae80140d890221e19dd5ac400f8e62a39f41545896b52d3a60bad7d899c,
    0x03015776bf42efffeddf81b4cbbe17e0585b63fd89eea8d09b28f41166ca318189⟩]

/-- The digest of a child; past the table it is made from the index. -/
def KeyBranch.digest (branch : KeyBranch) (index : ℕ) : ℕ × ℕ :=
  match branch.children[index]? with
  | some child => (child.tweak, child.chainCode)
  | none => (index, 0)

/-- The public keys by their secrets. -/
def KeyBranch.publicKeys (branch : KeyBranch) : List (ℕ × ℕ) :=
  (branch.secret, branch.publicKey) ::
    branch.children.map fun child => ((branch.secret + child.tweak) % groupOrder, child.publicKey)

def publicKeys : List (ℕ × ℕ) :=
  accountKey :: receiveBranch.publicKeys ++ changeBranch.publicKeys

def childDigest (chainCode parent index : ℕ) : ℕ × ℕ :=
  if chainCode = receiveBranch.chainCode ∧ parent = receiveBranch.publicKey then
    receiveBranch.digest index
  else if chainCode = changeBranch.chainCode ∧ parent = changeBranch.publicKey then
    changeBranch.digest index
  else (pathDigests.lookup (chainCode, parent, index)).getD (0, 0)

/-! ## The libraries -/

def zeroPhrase : Str :=
  str "abandon abandon abandon abandon abandon abandon abandon abandon abandon abandon abandon abandon " ++
    str "abandon abandon abandon abandon abandon abandon abandon abandon abandon abandon abandon art"

/-- `secp256k1_ec_seckey_tweak_add` -/
def addTweak (secret tweak : ℕ) : Option Hash256 :=
  if tweak < groupOrder ∧ (secret + tweak) % groupOrder ≠ 0 then
    some (beHash ((secret + tweak) % groupOrder))
  else none

def zeroDigests (key data : Bytes) : ℕ × ℕ :=
  if key = str "Bitcoin seed" ∧ data = beBytes 64 seedOfZero then masterOfZero
  else childDigest (ofBe key) (ofBe (data.take 33)) (ofBe (data.drop 33))

def zeroPublicKey (secret : Bytes) : Bytes :=
  match publicKeys.lookup (ofBe secret) with
  | some key => beBytes 33 key
  | none => 2 :: secret

@[reducible] def zeroCrypto : Crypto where
  sha256 data := beHash (if data = List.replicate 32 0 then
    0x66687aadf862bd776c8fc18b8e9f8e20089714856ee233b3902a591d0d5f2925 else 0)
  verifyEcdsaDer _ _ _ := false
  validCompressedPublicKey key := key.length = 33 ∧ (key.head? = some 2 ∨ key.head? = some 3)

@[reducible] def zeroKeyCrypto : KeyCrypto where
  validSecretKey secret := 0 < ofBe secret.bytes ∧ ofBe secret.bytes < groupOrder
  publicKey secret := zeroPublicKey secret.bytes
  tweakAdd secret tweak := addTweak (ofBe secret.bytes) (ofBe tweak.bytes)
  hmacSha512 key data := (beHash (zeroDigests key data).1, beHash (zeroDigests key data).2)
  pbkdf2 password salt :=
    if password = zeroPhrase ∧ salt = str "mnemonic" then beBytes 64 seedOfZero else []

attribute [local instance] zeroCrypto zeroKeyCrypto

theorem zero_publicKeysValid : PublicKeysValid := by
  have htable : ∀ row ∈ publicKeys, validCompressedPublicKey (beBytes 33 row.2) := by
    decide +kernel
  intro key
  show validCompressedPublicKey (zeroPublicKey key.secret.bytes)
  unfold zeroPublicKey
  split
  · rename_i found hfound
    obtain ⟨before, after, hsplit, -⟩ := List.lookup_eq_some_iff.1 hfound
    exact htable (_, found) (hsplit ▸ List.mem_append_right _ List.mem_cons_self)
  · exact decide_eq_true ⟨congrArg (· + 1) key.secret.size_eq, .inl rfl⟩

/-! ## The derivations -/

def zeroEntropy : Hash256 := Hash256.ofBytes []

def zeroMaster : HdPrivateKey := ⟨beHash masterOfZero.1, beHash masterOfZero.2, 0, 0⟩

theorem except_of_toOption {ε α : Type} {x : Except ε α} {a : α} (h : x.toOption = some a) :
    x = .ok a := by
  cases x with
  | error e => cases h
  | ok b => exact congrArg _ (Option.some.inj h)

theorem masterOf_zeroEntropy : masterOf zeroEntropy = .ok zeroMaster :=
  except_of_toOption (by decide +kernel)

/-- What the table of a branch has to satisfy. -/
structure KeyBranch.Sound (branch : KeyBranch) : Prop where
  secret_pos : 0 < branch.secret
  secret_lt : branch.secret + 2 ^ 32 < groupOrder
  chainCode_lt : branch.chainCode < 2 ^ 256
  publicKey_eq : KeyCrypto.publicKey (beHash branch.secret) = beBytes 33 branch.publicKey
  publicKey_lt : branch.publicKey < 256 ^ 33
  tweak : ∀ child ∈ branch.children,
    child.tweak < groupOrder ∧ (branch.secret + child.tweak) % groupOrder ≠ 0
  digest : ∀ index, childDigest branch.chainCode branch.publicKey index = branch.digest index

/-- The key of a branch. -/
def KeyBranch.key (branch : KeyBranch) (number : UInt32) : HdPrivateKey :=
  ⟨beHash branch.secret, beHash branch.chainCode, 4, number⟩

theorem groupOrder_lt : groupOrder < 2 ^ 256 := by decide +kernel

theorem and_hardened {index : UInt32} (h : index.toNat < 2 ^ 31) : index &&& hardened = 0 := by
  refine UInt32.toNat_inj.1 ?_
  rw [UInt32.toNat_and, show hardened.toNat = 2 ^ 31 from rfl, Nat.and_two_pow,
    Nat.testBit_lt_two_pow h]
  rfl

section
variable {branch : KeyBranch}

/-- A child in the table or past it: the tweak is one. -/
theorem KeyBranch.Sound.digest_tweak (h : branch.Sound) {index : ℕ} (hindex : index < 2 ^ 32) :
    (branch.digest index).1 < groupOrder ∧
      (branch.secret + (branch.digest index).1) % groupOrder ≠ 0 := by
  have hpos := h.secret_pos
  have hlt := h.secret_lt
  unfold KeyBranch.digest
  split
  · rename_i child hchild
    exact h.tweak child (List.mem_of_getElem? hchild)
  · rw [Nat.mod_eq_of_lt (by omega)]
    omega

theorem KeyBranch.Sound.valid (h : branch.Sound) : validSecretKey (beHash branch.secret) := by
  have hlt := h.secret_lt
  have hnumber := ofBe_beHash (n := branch.secret) (by have := groupOrder_lt; omega)
  exact decide_eq_true (hnumber.symm ▸ ⟨h.secret_pos, by omega⟩)

/-- What the digest of a child of the branch is. -/
theorem KeyBranch.Sound.hmac (h : branch.Sound) (index : UInt32) : ∃ n < 2 ^ 32,
    hmacSha512 (beHash branch.chainCode).bytes (appendU32Be (beBytes 33 branch.publicKey) index) =
      (beHash (branch.digest n).1, beHash (branch.digest n).2) := by
  obtain ⟨last, hlast, hdata⟩ : ∃ last : Bytes, last.length = 4 ∧
      appendU32Be (beBytes 33 branch.publicKey) index = beBytes 33 branch.publicKey ++ last :=
    ⟨_, rfl, rfl⟩
  have hlength := length_beBytes 33 branch.publicKey
  have hkey : (beHash branch.chainCode).bytes ≠ str "Bitcoin seed" := by
    intro heq
    have hlen := congrArg List.length heq
    rw [(beHash branch.chainCode).size_eq] at hlen
    exact absurd hlen (by decide)
  have hpublic : ofBe (beBytes 33 branch.publicKey) = branch.publicKey := by
    rw [ofBe, beBytes, List.reverse_reverse, ofLe_leBytes h.publicKey_lt]
  refine ⟨ofBe last, ?_, ?_⟩
  · have hlt := ofLe_lt last.reverse
    rw [List.length_reverse, hlast] at hlt
    exact hlt.trans_eq (by norm_num)
  · have hdigest : zeroDigests (beHash branch.chainCode).bytes (beBytes 33 branch.publicKey ++ last) =
        branch.digest (ofBe last) := by
      rw [zeroDigests, if_neg fun hand => hkey hand.1, List.take_left' hlength,
        List.drop_left' hlength, ofBe_beHash h.chainCode_lt, hpublic, h.digest]
    rw [hdata, ← hdigest]
    rfl

/-- A child of the branch can be derived, and its secret is a key. -/
theorem KeyBranch.Sound.derive (h : branch.Sound) (number : UInt32) {index : UInt32}
    (hindex : index.toNat < 2 ^ 31) :
    ∃ k, (branch.key number).derive index = .ok k ∧ validSecretKey k.secret := by
  obtain ⟨n, hn, hdigest⟩ := h.hmac index
  obtain ⟨htweak, hsum⟩ := h.digest_tweak hn
  have hlt := h.secret_lt
  have horder := groupOrder_lt
  have hsecret : ofBe (beHash branch.secret).bytes = branch.secret := ofBe_beHash (by omega)
  have htweakNumber : ofBe (beHash (branch.digest n).1).bytes = (branch.digest n).1 :=
    ofBe_beHash (by omega)
  have hsumLt : (branch.secret + (branch.digest n).1) % groupOrder < groupOrder :=
    Nat.mod_lt _ (by omega)
  have hadd : addSecretTweak (beHash branch.secret) (beHash (branch.digest n).1) =
      .ok (beHash ((branch.secret + (branch.digest n).1) % groupOrder)) := by
    refine except_bind_ok.2 ⟨(), throwIf_ok.2 (not_not.2 h.valid), orThrow_ok.2 ?_⟩
    show addTweak (ofBe (beHash branch.secret).bytes) (ofBe (beHash (branch.digest n).1).bytes) = _
    rw [hsecret, htweakNumber, addTweak, if_pos ⟨htweak, hsum⟩]
  have hpublic : Secp256k1Secret.compressedPublicKey <$> (branch.key number).key =
      .ok (beBytes 33 branch.publicKey) := by
    have hkey : (branch.key number).key = .ok ⟨beHash branch.secret, h.valid⟩ := by
      rw [HdPrivateKey.key, Secp256k1Secret.fromSecretBytes]
      exact dif_pos h.valid
    rw [hkey]
    exact congrArg Except.ok h.publicKey_eq
  refine ⟨⟨beHash ((branch.secret + (branch.digest n).1) % groupOrder), beHash (branch.digest n).2,
    4 + 1, index⟩, ?_, ?_⟩
  · unfold HdPrivateKey.derive
    rw [if_neg (not_not.2 (and_hardened hindex)), hpublic]
    refine except_bind_ok.2 ⟨_, rfl, ?_⟩
    show (addSecretTweak (beHash branch.secret) (hmacSha512 (beHash branch.chainCode).bytes _).1 >>= _) = _
    rw [hdigest]
    refine except_bind_ok.2 ⟨_, hadd, ?_⟩
    exact congrArg (fun digest : Hash256 × Hash256 =>
      Except.ok (HdPrivateKey.mk _ digest.2 (4 + 1) index)) hdigest
  · have hnumber := ofBe_beHash (hsumLt.trans horder)
    exact decide_eq_true (hnumber.symm ▸ ⟨Nat.pos_of_ne_zero hsum, hsumLt⟩)

end

theorem receiveBranch_sound : receiveBranch.Sound where
  secret_pos := by decide +kernel
  secret_lt := by decide +kernel
  chainCode_lt := by decide +kernel
  publicKey_eq := by decide +kernel
  publicKey_lt := by decide +kernel
  tweak := by decide +kernel
  digest _ := if_pos ⟨rfl, rfl⟩

theorem changeBranch_sound : changeBranch.Sound where
  secret_pos := by decide +kernel
  secret_lt := by decide +kernel
  chainCode_lt := by decide +kernel
  publicKey_eq := by decide +kernel
  publicKey_lt := by decide +kernel
  tweak := by decide +kernel
  digest _ := (if_neg (by decide +kernel)).trans (if_pos ⟨rfl, rfl⟩)

/-- The node above the keys of a branch. -/
def branchNode (number : UInt32) : Except Exn HdPrivateKey := do
  let purpose ← zeroMaster.derive (44 ||| hardened)
  let coin ← purpose.derive (1 ||| hardened)
  let account ← coin.derive (0 ||| hardened)
  account.derive number

theorem branchNode_receive : branchNode 0 = .ok (receiveBranch.key 0) :=
  except_of_toOption (by decide +kernel)

theorem branchNode_change : branchNode 1 = .ok (changeBranch.key 1) :=
  except_of_toOption (by decide +kernel)

theorem walletKey_branch (number index : UInt32) : walletKey zeroMaster number index =
    branchNode number >>= fun node => node.derive index >>= HdPrivateKey.key := by
  simp only [walletKey, deriveTestnetWalletKey, branchNode, bind_assoc]

theorem KeyBranch.Sound.walletKey {branch : KeyBranch} (h : branch.Sound) {number index : UInt32}
    (hnode : branchNode number = .ok (branch.key number)) (hindex : index.toNat < 2 ^ 31) :
    ∃ key, walletKey zeroMaster number index = .ok key := by
  obtain ⟨k, hderive, hvalid⟩ := h.derive number hindex
  refine ⟨⟨k.secret, hvalid⟩, ?_⟩
  rw [walletKey_branch, hnode]
  refine except_bind_ok.2 ⟨_, rfl, except_bind_ok.2 ⟨k, hderive, ?_⟩⟩
  exact dif_pos hvalid

/-- Every key of the two branches below the hardened numbers can be derived. -/
theorem zero_derivable {limit : ℕ} (hlimit : limit ≤ 2 ^ 31) :
    Derivable zeroEntropy zeroMaster limit := by
  refine ⟨masterOf_zeroEntropy, fun branch index hbranch hindex => ?_⟩
  rcases hbranch with rfl | rfl
  · exact receiveBranch_sound.walletKey branchNode_receive (by omega)
  · exact changeBranch_sound.walletKey branchNode_change (by omega)

end BinaryCoin
